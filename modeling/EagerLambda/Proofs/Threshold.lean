import EagerLambda.Proofs.Adequacy

/-!
# Threshold — a derivation says how much room it takes

The height of a derivation (`BigStep`) is the number of nested calls that it needs, no more and no
less.  With that much room the evaluator has the outcome of the derivation (`BigStep.followed`).
With any less it reports that the limit was reached (`BigStep.refused`): the call that is too deep
is made, whatever comes after it.

So it takes one derivation to know what an expression evaluates to under every limit
(`BigStep.eval_eq`).
-/

namespace EagerLambda

variable {κ σ : Type} {host : Host κ σ} {Q : κ → Prop} {t t₁ t₂ : Store σ} {env : Env κ}

/-- The run has ended because the limit was reached. -/
def Overflown (ctx : Context) (out : Except (EvalError κ) (Value κ) × Run.State κ σ) : Prop :=
  out.1 = .error (.stackOverflow ctx.limit ctx.limit)

/-- In every context with room for less than `h` nested calls the evaluator reaches the limit. -/
def Refused (host : Host κ σ) (Q : κ → Prop) (t : Store σ) (env : Env κ) (e : Expr) (h : Nat) :
    Prop :=
  ∀ {room : Nat} {ctx : Context} (log : List (Event κ)), host.Leaves ctx.flag Q →
    ctx.Ready t room → room < h → env.Within Q →
    Overflown ctx (e.evalWith (callAt host room) env ⟨ctx, t, log⟩)

/-- What comes after a run that has reached the limit does not matter. -/
theorem Overflown.bind {ctx : Context} {x : Run κ σ (Value κ)} {s : Run.State κ σ}
    (h : Overflown ctx (x s)) (f : Value κ → Run κ σ (Value κ)) :
    Overflown ctx ((x >>= f) s) := by
  rcases hx : x s with ⟨r, s₁⟩
  obtain rfl : r = .error (.stackOverflow ctx.limit ctx.limit) := by
    rw [hx] at h
    exact h
  rw [Run.bind_error hx]
  rfl

/-- Of two parts that are evaluated one after the other, the first is refused, or it is followed and
the second is refused. -/
theorem Refused.pair {e₁ e₂ : Expr} {r₁ : Except (EvalError κ) (Value κ)} {h₁ h₂ room : Nat}
    (hr₁ : Refused host Q t env e₁ h₁) (hb₁ : BigStep host t env e₁ r₁ h₁ t₁)
    (hr₂ : Refused host Q t₁ env e₂ h₂) {ctx : Context} (log : List (Event κ))
    (hQ : host.Leaves ctx.flag Q) (hs : ctx.Ready t room) (hlt : room < max h₁ h₂)
    (henv : env.Within Q) :
    Overflown ctx (e₁.evalWith (callAt host room) env ⟨ctx, t, log⟩) ∨
      ∃ log₁, e₁.evalWith (callAt host room) env ⟨ctx, t, log⟩ = (r₁, ⟨ctx, t₁, log₁⟩) ∧
        Overflown ctx (e₂.evalWith (callAt host room) env ⟨ctx, t₁, log₁⟩) := by
  by_cases hle : h₁ ≤ room
  · obtain ⟨log₁, run₁⟩ := hb₁.followed log hQ hs hle henv
    have hlt₂ : room < h₂ := by omega
    exact .inr ⟨log₁, run₁, hr₂ log₁ hQ (hs.after (hb₁.leaves hQ henv)) hlt₂ henv⟩
  · exact .inl (hr₁ log hQ hs (Nat.lt_of_not_le hle) henv)

/-- An application is refused if its callee is, or its argument. -/
theorem Refused.app {f a : Expr} {u : Value κ} {h₁ h₂ room : Nat}
    (hrf : Refused host Q t env f h₁) (hf : BigStep host t env f (.ok u) h₁ t₁)
    (hu : u.isCallable = true) (hra : Refused host Q t₁ env a h₂) {ctx : Context}
    (log : List (Event κ)) (hQ : host.Leaves ctx.flag Q) (hs : ctx.Ready t room)
    (hlt : room < max h₁ h₂) (henv : env.Within Q) :
    Overflown ctx ((Expr.app f a).evalWith (callAt host room) env ⟨ctx, t, log⟩) := by
  simp only [Expr.evalWith]
  rw [Run.poll_bind _ _ hs.clear]
  rcases hrf.pair hf hra log hQ hs hlt henv with hover | ⟨log₁, run₁, hover⟩
  · exact hover.bind _
  · rw [Run.bind_ok run₁, if_pos hu]
    exact hover.bind _

/-- A call is refused where there is no room for it, and otherwise if its body is. -/
theorem callAt_refused {room h : Nat} {ctx : Context} (log : List (Event κ)) {c : Closure κ}
    {arg : Value κ} (hQ : host.Leaves ctx.flag Q) (hs : ctx.Ready t room) (hlt : room < h + 1)
    (hc : (Value.closure c).Within Q) (harg : arg.Within Q)
    (hb : Refused host Q (c.callEnv arg t).2 (c.callEnv arg t).1 c.body h) :
    Overflown ctx (callAt host room (.closure c) arg ⟨ctx, t, log⟩) := by
  cases room with
  | zero =>
      have hfull : ctx.depth = ctx.limit := hs.room
      rw [callAt_closure_full host 0 c arg (s := ⟨ctx, t, log⟩) (Nat.le_of_eq hfull.symm)]
      simp only [Overflown, Run.overflow, hfull]
  | succ room =>
      rw [callAt_closure host room c arg (s := ⟨ctx, t, log⟩) hs.lt]
      exact hb _ hQ (hs.inside (s := ⟨ctx, t, log⟩) c arg) (Nat.lt_of_succ_lt_succ hlt)
        (Closure.Every.callEnv hc harg t)

/-- An application of a closure is refused if its callee is, or its argument, or the call. -/
theorem Refused.call {f a : Expr} {c : Closure κ} {v : Value κ} {h₁ h₂ h₃ : Nat}
    (hrf : Refused host Q t env f h₁) (hf : BigStep host t env f (.ok (.closure c)) h₁ t₁)
    (hra : Refused host Q t₁ env a h₂) (ha : BigStep host t₁ env a (.ok v) h₂ t₂)
    (hb : Refused host Q (c.callEnv v t₂).2 (c.callEnv v t₂).1 c.body h₃) :
    Refused host Q t env (.app f a) (max (max h₁ h₂) (h₃ + 1)) := by
  intro room ctx log hQ hs hlt henv
  by_cases hle : max h₁ h₂ ≤ room
  · obtain ⟨log₁, log₂, run₁, run₂⟩ := Followed.pair hf.followed hf ha.followed log hQ hs hle henv
    have hkf := hf.leaves hQ henv
    have hka := ha.leaves hQ henv
    rw [Expr.evalWith_app hs.clear run₁ rfl run₂]
    exact callAt_refused log₂ hQ ((hs.after hkf).after hka) (by omega) hkf.value hka.value hb
  · exact hrf.app hf rfl hra log hQ hs (Nat.lt_of_not_le hle) henv

/-- A `let` is refused if its value is, or its body. -/
theorem Refused.letIn {rec : Bool} {x : String} {e b : Expr} {v w : Value κ} {n h₁ h₂ : Nat}
    (hre : Refused host Q t env e h₁) (he : BigStep host t env e (.ok v) h₁ t₁)
    (hbound : ∀ ctx log, ∃ log',
      (v.bound rec x : Run κ σ (Value κ)) ⟨ctx, t₁, log⟩ = (.ok w, ⟨ctx, t₁.taken n, log'⟩))
    (hw : v.Within Q → w.Within Q)
    (hb : Refused host Q (t₁.taken (n + 1)) (.frame (t₁.next + n) x w env) b h₂) :
    Refused host Q t env (.letIn rec x e b) (max h₁ h₂) := by
  intro room ctx log hQ hs hlt henv
  by_cases hle : h₁ ≤ room
  · obtain ⟨log₁, run₁⟩ := he.followed log hQ hs hle henv
    have hk := he.leaves hQ henv
    obtain ⟨log₂, run₂⟩ := hbound ctx log₁
    rw [Expr.evalWith_letIn hs.clear run₁ run₂]
    exact hb log₂ hQ ((hs.after hk).taken (n + 1)) (by omega) ⟨hw hk.value, henv⟩
  · simp only [Expr.evalWith]
    rw [Run.poll_bind _ _ hs.clear]
    exact (hre log hQ hs (Nat.lt_of_not_le hle) henv).bind _

/-- **A derivation is refused** by the evaluator in every context with too little room. -/
theorem BigStep.refused {e : Expr} {r : Except (EvalError κ) (Value κ)} {h : Nat}
    (hb : BigStep host t env e r h t₁) : Refused host Q t env e h := by
  induction hb with
  | int | bool | str | lam | var | unbound =>
      exact fun log _ _ hlt _ => absurd hlt (Nat.not_lt_zero _)
  | appFuncError _ ih | appNoFunction _ _ ih | condError _ ih | condNoBool _ _ ih
  | binaryLeftError _ ih | letError _ ih =>
      intro room ctx log hQ hs hlt henv
      simp only [Expr.evalWith]
      rw [Run.poll_bind _ _ hs.clear]
      exact (ih log hQ hs hlt henv).bind _
  | appArgError hf hu _ ihf iha => exact ihf.app hf hu iha
  | appIntrinsic hf _ _ ihf iha | appHost hf _ _ _ ihf iha => exact ihf.app hf rfl iha
  | appClosure hf ha hc _ ihf iha ihb =>
      refine ihf.call hf iha ha ?_
      rw [Closure.callEnv_of_none hc]
      exact ihb
  | appRecursive hf ha hc _ ihf iha ihb =>
      refine ihf.call hf iha ha ?_
      rw [Closure.callEnv_of_some hc]
      exact ihb
  | condTrue he _ ihe ihb | condFalse he _ ihe ihb =>
      intro room ctx log hQ hs hlt henv
      simp only [Expr.evalWith]
      rw [Run.poll_bind _ _ hs.clear]
      rcases ihe.pair he ihb log hQ hs hlt henv with hover | ⟨log₁, run₁, hover⟩
      · exact hover.bind _
      · rw [Run.bind_ok run₁]
        exact hover
  | binaryRightError hl _ ihl ihr | binary hl _ ihl ihr =>
      intro room ctx log hQ hs hlt henv
      simp only [Expr.evalWith]
      rw [Run.poll_bind _ _ hs.clear]
      rcases ihl.pair hl ihr log hQ hs hlt henv with hover | ⟨log₁, run₁, hover⟩
      · exact hover.bind _
      · rw [Run.bind_ok run₁]
        exact hover.bind _
  | letPlain he hv _ ihe ihb =>
      exact ihe.letIn (n := 0) he (fun _ log => ⟨log, Value.bound_plain hv _ _⟩) (fun h => h) ihb
  | letRec he hc _ ihe ihb =>
      refine ihe.letIn (n := 1) he (fun ctx log => ?_) ?_ ihb
      · rw [Value.bound_closure, Closure.tie_of_none hc]
        exact ⟨_, rfl⟩
      · exact fun h => ⟨trivial, (Closure.every_iff.mp h).2⟩
  | letRecAgain he hc _ ihe ihb =>
      refine ihe.letIn (n := 2) he (fun ctx log => ?_) ?_ ihb
      · rw [Value.bound_closure, Closure.tie_of_some hc]
        exact ⟨_, rfl⟩
      · exact fun h => ⟨trivial, h, (Closure.every_iff.mp h).2⟩

/-- **What a derivation comes to under a limit.**  With a clear flag and at a depth within the
limit, over builtins that leave the flag alone, the outcome is that of the derivation if its calls
fit, and otherwise the limit is reached. -/
theorem BigStep.eval_eq {e : Expr} {r : Except (EvalError κ) (Value κ)} {h : Nat}
    {s : Run.State κ σ} (hb : BigStep host s.store env e r h t₁)
    (hQ : host.Leaves s.context.flag Q) (henv : env.Within Q)
    (hclear : s.context.isInterrupted s.store = false)
    (hdepth : s.context.depth ≤ s.context.limit) :
    (e.eval host env s).1 = if s.context.depth + h ≤ s.context.limit then r else
      .error (.stackOverflow s.context.limit s.context.limit) := by
  have hs := Context.ready_room hclear hdepth
  have hroom := hs.room
  by_cases hfit : s.context.depth + h ≤ s.context.limit
  · obtain ⟨log, hrun⟩ := hb.followed s.log hQ hs (by omega) henv
    rw [if_pos hfit]
    exact congrArg Prod.fst hrun
  · rw [if_neg hfit]
    exact hb.refused s.log hQ hs (by omega) henv

end EagerLambda
