import EagerLambda.Eval.Stock
import EagerLambda.Proofs.BigStep

/-!
# Adequacy — the evaluator finds the derivations that fit

The evaluator works below a limit; a derivation (`BigStep`) knows of none.  With a clear flag, and
with functions of the host that leave it alone, the two agree (`eval_adequate`): a derivation whose
calls fit below the limit is what the evaluator finds, and where no derivation fits, because the
calls are nested too deeply or never come to an end, the evaluator reports that the limit was
reached.

Each half is an induction of its own.  A derivation that fits is followed by induction on the
derivation (`BigStep.followed`).  In the other direction the room is what gets smaller: whatever the
evaluator does with some room, it either overflows at the limit or has a derivation that fits into
the room (`Explained`), by induction on the expression for one room (`evalWith_explained`) and on
the room for calls (`callAt_explained`).
-/

namespace EagerLambda

variable {κ σ : Type}

/-! ### Contexts in which a derivation can be followed -/

/-- The flag is clear, and `room` more calls can be nested. -/
structure Context.Ready (ctx : Context) (t : Store σ) (room : Nat) : Prop where
  clear : ctx.isInterrupted t = false
  room : ctx.depth + room = ctx.limit

namespace Context.Ready

variable {ctx : Context} {t t' : Store σ} {room : Nat}

/-- One part of a derivation leaves the context ready for the next. -/
theorem after (hs : ctx.Ready t room) {Q : κ → Prop} {r : Except (EvalError κ) (Value κ)}
    (hk : Kept ctx.flag Q t r t') : ctx.Ready t' room :=
  ⟨hk.flag.trans hs.clear, hs.room⟩

theorem taken (hs : ctx.Ready t room) (n : Nat) : ctx.Ready (t.taken n) room :=
  ⟨hs.clear, hs.room⟩

/-- Inside a call there is room for one call less. -/
theorem deeper (hs : ctx.Ready t (room + 1)) :
    ({ ctx with depth := ctx.depth + 1 } : Context).Ready t room := by
  refine ⟨hs.clear, ?_⟩
  have hroom := hs.room
  show ctx.depth + 1 + room = ctx.limit
  omega

theorem inside {s : Run.State κ σ} (hs : s.context.Ready s.store (room + 1)) (c : Closure κ)
    (arg : Value κ) : (s.inside c arg).context.Ready (s.inside c arg).store room :=
  ⟨(congrFun (c.quiet_callEnv arg s.store) s.context.flag).trans hs.clear, hs.deeper.room⟩

theorem lt (hs : ctx.Ready t (room + 1)) : ctx.depth < ctx.limit := by
  have hroom := hs.room
  omega

end Context.Ready

/-! ### A derivation that fits is followed -/

/-- A call is followed when its body is. -/
theorem callAt_followed {host : Host κ σ} {room : Nat} {ctx : Context} {t t₁ t₂ : Store σ}
    {log : List (Event κ)} {c : Closure κ} {arg : Value κ} {env : Env κ}
    {r : Except (EvalError κ) (Value κ)} (hs : ctx.Ready t (room + 1))
    (hcall : c.callEnv arg t = (env, t₁))
    (hb : ∃ log', c.body.evalWith (callAt host room) env
      ⟨{ ctx with depth := ctx.depth + 1 }, t₁, .closureCall c.param arg (ctx.depth + 1) :: log⟩ =
        (r, ⟨{ ctx with depth := ctx.depth + 1 }, t₂, log'⟩)) :
    ∃ log', callAt host (room + 1) (.closure c) arg ⟨ctx, t, log⟩ = (r, ⟨ctx, t₂, log'⟩) := by
  obtain ⟨log', hb⟩ := hb
  refine ⟨log', ?_⟩
  rw [callAt_closure host room c arg (s := ⟨ctx, t, log⟩) hs.lt]
  simp only [Run.State.inside, hcall, hb]
  rfl

/-- In every context with room for `h` nested calls the evaluator goes from `t` to `t'` and has the
outcome `r`. -/
def Followed (host : Host κ σ) (Q : κ → Prop) (t : Store σ) (env : Env κ) (e : Expr)
    (r : Except (EvalError κ) (Value κ)) (h : Nat) (t' : Store σ) : Prop :=
  ∀ {room : Nat} {ctx : Context} (log : List (Event κ)), host.Leaves ctx.flag Q →
    ctx.Ready t room → h ≤ room → env.Within Q →
    ∃ log', e.evalWith (callAt host room) env ⟨ctx, t, log⟩ = (r, ⟨ctx, t', log'⟩)

/-- Two parts of an expression that are followed one after the other. -/
theorem Followed.pair {host : Host κ σ} {Q : κ → Prop} {t t₁ t₂ : Store σ} {env : Env κ}
    {e₁ e₂ : Expr} {r₁ r₂ : Except (EvalError κ) (Value κ)} {h₁ h₂ : Nat}
    (hf₁ : Followed host Q t env e₁ r₁ h₁ t₁) (hb₁ : BigStep host t env e₁ r₁ h₁ t₁)
    (hf₂ : Followed host Q t₁ env e₂ r₂ h₂ t₂) {room : Nat} {ctx : Context}
    (log : List (Event κ)) (hQ : host.Leaves ctx.flag Q) (hs : ctx.Ready t room)
    (hle : max h₁ h₂ ≤ room) (henv : env.Within Q) :
    ∃ log₁ log₂, e₁.evalWith (callAt host room) env ⟨ctx, t, log⟩ = (r₁, ⟨ctx, t₁, log₁⟩) ∧
      e₂.evalWith (callAt host room) env ⟨ctx, t₁, log₁⟩ = (r₂, ⟨ctx, t₂, log₂⟩) := by
  obtain ⟨hle₁, hle₂⟩ := Nat.max_le.mp hle
  obtain ⟨log₁, run₁⟩ := hf₁ log hQ hs hle₁ henv
  obtain ⟨log₂, run₂⟩ := hf₂ log₁ hQ (hs.after (hb₁.leaves hQ henv)) hle₂ henv
  exact ⟨log₁, log₂, run₁, run₂⟩

/-- **Completeness.**  A derivation is what the evaluator does in every context with enough room. -/
theorem BigStep.followed {host : Host κ σ} {Q : κ → Prop} {t t' : Store σ} {env : Env κ} {e : Expr}
    {r : Except (EvalError κ) (Value κ)} {h : Nat} (hb : BigStep host t env e r h t') :
    Followed host Q t env e r h t' := by
  induction hb with
  | int | bool | str | lam =>
      intro room ctx log _ hs _ _
      refine ⟨log, ?_⟩
      simp only [Expr.evalWith]
      rw [Run.poll_bind _ _ hs.clear]
      rfl
  | var hx | unbound hx =>
      intro room ctx log _ hs _ _
      refine ⟨log, ?_⟩
      simp only [Expr.evalWith]
      rw [Run.poll_bind _ _ hs.clear, hx]
      rfl
  | appFuncError _ ih | condError _ ih | binaryLeftError _ ih | letError _ ih =>
      intro room ctx log hQ hs hle henv
      obtain ⟨log₁, h₁⟩ := ih log hQ hs hle henv
      refine ⟨log₁, ?_⟩
      simp only [Expr.evalWith]
      rw [Run.poll_bind _ _ hs.clear, Run.bind_error h₁]
  | appNoFunction _ hu ih =>
      intro room ctx log hQ hs hle henv
      obtain ⟨log₁, h₁⟩ := ih log hQ hs hle henv
      refine ⟨log₁, ?_⟩
      simp only [Expr.evalWith]
      rw [Run.poll_bind _ _ hs.clear, Run.bind_ok h₁, if_neg (by simp [hu])]
      rfl
  | appArgError hf hu _ ihf iha =>
      intro room ctx log hQ hs hle henv
      obtain ⟨log₁, log₂, h₁, h₂⟩ := ihf.pair hf iha log hQ hs hle henv
      refine ⟨log₂, ?_⟩
      simp only [Expr.evalWith]
      rw [Run.poll_bind _ _ hs.clear, Run.bind_ok h₁, if_pos hu, Run.bind_error h₂]
  | appIntrinsic hf _ hb ihf iha =>
      intro room ctx log hQ hs hle henv
      obtain ⟨log₁, log₂, h₁, h₂⟩ := ihf.pair hf iha log hQ hs hle henv
      rw [Expr.evalWith_app hs.clear h₁ rfl h₂, callAt_intrinsic host room hb]
      exact ⟨_, rfl⟩
  | appHost hf _ hb hr ihf iha =>
      intro room ctx log hQ hs hle henv
      obtain ⟨log₁, log₂, h₁, h₂⟩ := ihf.pair hf iha log hQ hs hle henv
      rw [Expr.evalWith_app hs.clear h₁ rfl h₂, callAt_host host room hb, hr]
      exact ⟨_, rfl⟩
  | appClosure hf ha hc _ ihf iha ihb =>
      intro room ctx log hQ hs hle henv
      obtain ⟨hle₁₂, hle₃⟩ := Nat.max_le.mp hle
      -- the height of the call is positive, so there is room for it
      obtain ⟨room, rfl⟩ := Nat.exists_eq_add_one.mpr (Nat.lt_of_lt_of_le (Nat.succ_pos _) hle₃)
      obtain ⟨log₁, log₂, h₁, h₂⟩ := ihf.pair hf iha log hQ hs hle₁₂ henv
      have hs₂ := (hs.after (hf.leaves hQ henv)).after (ha.leaves hQ henv)
      have hheld := Closure.every_iff.mp (hf.leaves hQ henv).value
      rw [Expr.evalWith_app hs.clear h₁ rfl h₂]
      exact callAt_followed hs₂ (Closure.callEnv_of_none hc _ _) (ihb _ hQ (hs₂.taken 1).deeper
        (Nat.le_of_succ_le_succ hle₃) ⟨(ha.leaves hQ henv).value, hheld.2⟩)
  | appRecursive hf ha hc _ ihf iha ihb =>
      intro room ctx log hQ hs hle henv
      obtain ⟨hle₁₂, hle₃⟩ := Nat.max_le.mp hle
      obtain ⟨room, rfl⟩ := Nat.exists_eq_add_one.mpr (Nat.lt_of_lt_of_le (Nat.succ_pos _) hle₃)
      obtain ⟨log₁, log₂, h₁, h₂⟩ := ihf.pair hf iha log hQ hs hle₁₂ henv
      have hs₂ := (hs.after (hf.leaves hQ henv)).after (ha.leaves hQ henv)
      have hself := (hf.leaves hQ henv).value
      have hheld := Closure.every_iff.mp hself
      rw [Expr.evalWith_app hs.clear h₁ rfl h₂]
      exact callAt_followed hs₂ (Closure.callEnv_of_some hc _ _) (ihb _ hQ (hs₂.taken 2).deeper
        (Nat.le_of_succ_le_succ hle₃) ⟨(ha.leaves hQ henv).value, hself, hheld.2⟩)
  | condTrue he _ ihe ihb | condFalse he _ ihe ihb =>
      intro room ctx log hQ hs hle henv
      obtain ⟨log₁, log₂, h₁, h₂⟩ := ihe.pair he ihb log hQ hs hle henv
      refine ⟨log₂, ?_⟩
      simp only [Expr.evalWith]
      rw [Run.poll_bind _ _ hs.clear, Run.bind_ok h₁, ← h₂]
  | condNoBool _ hu ih =>
      intro room ctx log hQ hs hle henv
      obtain ⟨log₁, h₁⟩ := ih log hQ hs hle henv
      refine ⟨log₁, ?_⟩
      simp only [Expr.evalWith]
      rw [Run.poll_bind _ _ hs.clear, Run.bind_ok h₁]
      split
      · exact absurd rfl (hu true)
      · exact absurd rfl (hu false)
      · rfl
  | binaryRightError hl _ ihl ihr =>
      intro room ctx log hQ hs hle henv
      obtain ⟨log₁, log₂, h₁, h₂⟩ := ihl.pair hl ihr log hQ hs hle henv
      refine ⟨log₂, ?_⟩
      simp only [Expr.evalWith]
      rw [Run.poll_bind _ _ hs.clear, Run.bind_ok h₁, Run.bind_error h₂]
  | binary hl _ ihl ihr =>
      intro room ctx log hQ hs hle henv
      obtain ⟨log₁, log₂, h₁, h₂⟩ := ihl.pair hl ihr log hQ hs hle henv
      refine ⟨log₂, ?_⟩
      simp only [Expr.evalWith]
      rw [Run.poll_bind _ _ hs.clear, Run.bind_ok h₁, Run.bind_ok h₂]
      rfl
  | letPlain he hv _ ihe ihb =>
      intro room ctx log hQ hs hle henv
      obtain ⟨hle₁, hle₂⟩ := Nat.max_le.mp hle
      obtain ⟨log₁, h₁⟩ := ihe log hQ hs hle₁ henv
      have hs₁ := hs.after (he.leaves hQ henv)
      rw [Expr.evalWith_letIn hs.clear h₁ (Value.bound_plain hv _ _)]
      exact ihb log₁ hQ (hs₁.taken 1) hle₂ ⟨(he.leaves hQ henv).value, henv⟩
  | letRec he hc _ ihe ihb =>
      intro room ctx log hQ hs hle henv
      obtain ⟨hle₁, hle₂⟩ := Nat.max_le.mp hle
      obtain ⟨log₁, h₁⟩ := ihe log hQ hs hle₁ henv
      have hs₁ := hs.after (he.leaves hQ henv)
      have hheld := Closure.every_iff.mp (he.leaves hQ henv).value
      rw [Expr.evalWith_letIn hs.clear h₁ (Value.bound_closure _ _ _), Closure.tie_of_none hc]
      exact ihb _ hQ (hs₁.taken 2) hle₂ ⟨⟨trivial, hheld.2⟩, henv⟩
  | letRecAgain he hc _ ihe ihb =>
      intro room ctx log hQ hs hle henv
      obtain ⟨hle₁, hle₂⟩ := Nat.max_le.mp hle
      obtain ⟨log₁, h₁⟩ := ihe log hQ hs hle₁ henv
      have hs₁ := hs.after (he.leaves hQ henv)
      have hself := (he.leaves hQ henv).value
      have hheld := Closure.every_iff.mp hself
      rw [Expr.evalWith_letIn hs.clear h₁ (Value.bound_closure _ _ _), Closure.tie_of_some hc]
      exact ihb _ hQ (hs₁.taken 3) hle₂ ⟨⟨trivial, hself, hheld.2⟩, henv⟩

/-! ### What the evaluator does has a derivation that fits, or reaches the limit -/

/-- A derivation of at most `room` nested calls. -/
def Fits (host : Host κ σ) (room : Nat) (t : Store σ) (env : Env κ) (e : Expr)
    (r : Except (EvalError κ) (Value κ)) (t' : Store σ) : Prop :=
  ∃ h ≤ room, BigStep host t env e r h t'

/-- `r` and `t'` are what comes of applying `u` to `v` with the store `t`: every application whose
callee and argument have these values has a derivation that fits. -/
def Applies (host : Host κ σ) (room : Nat) (t : Store σ) (u v : Value κ)
    (r : Except (EvalError κ) (Value κ)) (t' : Store σ) : Prop :=
  ∀ ⦃t₀ t₁ : Store σ⦄ ⦃env : Env κ⦄ ⦃f a : Expr⦄ ⦃h₁ h₂ : Nat⦄, h₁ ≤ room → h₂ ≤ room →
    BigStep host t₀ env f (.ok u) h₁ t₁ → BigStep host t₁ env a (.ok v) h₂ t →
    Fits host room t₀ env (.app f a) r t'

/-- A run has ended in the context in which it started, and `D` accounts for its outcome, unless
the limit was reached. -/
def Explained (ctx : Context) (D : Except (EvalError κ) (Value κ) → Store σ → Prop)
    (out : Except (EvalError κ) (Value κ) × Run.State κ σ) : Prop :=
  out.2.context = ctx ∧
    (out.1 = .error (.stackOverflow ctx.limit ctx.limit) ∨ D out.1 out.2.store)

namespace Explained

variable {ctx : Context} {D D' : Except (EvalError κ) (Value κ) → Store σ → Prop}
  {s : Run.State κ σ}

/-- One run after the other.  If the first fails, `D'` has to account for its error. -/
theorem bind {x : Run κ σ (Value κ)} {f : Value κ → Run κ σ (Value κ)}
    (hx : Explained ctx D (x s)) (herr : ∀ err t, D (.error err) t → D' (.error err) t)
    (hok : ∀ v s₁, s₁.context = ctx → D (.ok v) s₁.store → Explained ctx D' (f v s₁)) :
    Explained ctx D' ((x >>= f) s) := by
  obtain ⟨hctx, hx⟩ := hx
  rcases hout : x s with ⟨_ | v, s₁⟩
  · rename_i err
    rw [Run.bind_error hout]
    rw [hout] at hctx hx
    exact ⟨hctx, hx.imp_right (herr err s₁.store)⟩
  · rw [Run.bind_ok hout]
    rw [hout] at hctx hx
    -- a value is not the refusal of a call
    exact hok v s₁ hctx (hx.resolve_left fun h => nomatch h)

theorem mono (h : ∀ r t, D r t → D' r t) {out : Except (EvalError κ) (Value κ) × Run.State κ σ}
    (hD : Explained ctx D out) : Explained ctx D' out :=
  ⟨hD.1, hD.2.imp_right (h _ _)⟩

/-- The last part of an expression, whose first part was derived with `h₁` nested calls. -/
theorem last {host : Host κ σ} {room h₁ : Nat} {t t₁ : Store σ} {env env₁ : Env κ} {e e₁ : Expr}
    {out : Except (EvalError κ) (Value κ) × Run.State κ σ}
    (hlast : Explained ctx (Fits host room t₁ env₁ e₁) out) (hle₁ : h₁ ≤ room)
    (hrule : ∀ {r h t'}, BigStep host t₁ env₁ e₁ r h t' → BigStep host t env e r (max h₁ h) t') :
    Explained ctx (Fits host room t env e) out :=
  hlast.mono fun _ _ ⟨h, hle, hb⟩ => ⟨max h₁ h, Nat.max_le.mpr ⟨hle₁, hle⟩, hrule hb⟩

end Explained

section

variable {host : Host κ σ} {Q : κ → Prop} {room : Nat} {ctx : Context}

theorem evalWith_explained (hQ : host.Leaves ctx.flag Q)
    (hcall : ∀ u v s, s.context = ctx → ctx.Ready s.store room → u.Within Q → v.Within Q →
      u.isCallable = true → Explained ctx (Applies host room s.store u v) (callAt host room u v s))
    (e : Expr) : ∀ env s, s.context = ctx → ctx.Ready s.store room → env.Within Q →
      Explained ctx (Fits host room s.store env e) (e.evalWith (callAt host room) env s) := by
  induction e with
  | int n =>
      rintro env s rfl hs -
      simp only [Expr.evalWith]
      rw [Run.poll_bind _ _ hs.clear]
      exact ⟨rfl, .inr ⟨0, Nat.zero_le _, .int⟩⟩
  | bool b =>
      rintro env s rfl hs -
      simp only [Expr.evalWith]
      rw [Run.poll_bind _ _ hs.clear]
      exact ⟨rfl, .inr ⟨0, Nat.zero_le _, .bool⟩⟩
  | str text =>
      rintro env s rfl hs -
      simp only [Expr.evalWith]
      rw [Run.poll_bind _ _ hs.clear]
      exact ⟨rfl, .inr ⟨0, Nat.zero_le _, .str⟩⟩
  | var x =>
      rintro env s rfl hs -
      simp only [Expr.evalWith]
      rw [Run.poll_bind _ _ hs.clear]
      cases hx : env.lookup? x with
      | none => exact ⟨rfl, .inr ⟨0, Nat.zero_le _, .unbound hx⟩⟩
      | some v => exact ⟨rfl, .inr ⟨0, Nat.zero_le _, .var hx⟩⟩
  | lam x ty b =>
      rintro env s rfl hs -
      simp only [Expr.evalWith]
      rw [Run.poll_bind _ _ hs.clear]
      exact ⟨rfl, .inr ⟨0, Nat.zero_le _, .lam⟩⟩
  | app f a ihf iha =>
      rintro env s rfl hs henv
      simp only [Expr.evalWith]
      rw [Run.poll_bind _ _ hs.clear]
      refine (ihf env s rfl hs henv).bind ?_ ?_
      · rintro err t ⟨h, hle, hb⟩
        exact ⟨h, hle, .appFuncError hb⟩
      rintro u s₁ hctx₁ ⟨h₁, hle₁, hf⟩
      have hk₁ := hf.leaves hQ henv
      cases hu : u.isCallable with
      | false => exact ⟨hctx₁, .inr ⟨h₁, hle₁, .appNoFunction hf hu⟩⟩
      | true =>
          refine (iha env s₁ hctx₁ (hs.after hk₁) henv).bind ?_ ?_
          · rintro err t ⟨h, hle, hb⟩
            exact ⟨max h₁ h, Nat.max_le.mpr ⟨hle₁, hle⟩, .appArgError hf hu hb⟩
          rintro v s₂ hctx₂ ⟨h₂, hle₂, ha⟩
          have hk₂ := ha.leaves hQ henv
          exact (hcall u v s₂ hctx₂ ((hs.after hk₁).after hk₂) hk₁.value hk₂.value hu).mono
            fun r t h => h hle₁ hle₂ hf ha
  | cond e yes no ihe ihy ihn =>
      rintro env s rfl hs henv
      simp only [Expr.evalWith]
      rw [Run.poll_bind _ _ hs.clear]
      refine (ihe env s rfl hs henv).bind ?_ ?_
      · rintro err t ⟨h, hle, hb⟩
        exact ⟨h, hle, .condError hb⟩
      rintro u s₁ hctx₁ ⟨h₁, hle₁, he⟩
      have hs₁ := hs.after (he.leaves hQ henv)
      split
      · exact (ihy env s₁ hctx₁ hs₁ henv).last hle₁ (.condTrue he)
      · exact (ihn env s₁ hctx₁ hs₁ henv).last hle₁ (.condFalse he)
      · rename_i hyes hno
        refine ⟨hctx₁, .inr ⟨h₁, hle₁, .condNoBool he fun b hb => ?_⟩⟩
        cases b with
        | true => exact hyes hb
        | false => exact hno hb
  | binary l op r ihl ihr =>
      rintro env s rfl hs henv
      simp only [Expr.evalWith]
      rw [Run.poll_bind _ _ hs.clear]
      refine (ihl env s rfl hs henv).bind ?_ ?_
      · rintro err t ⟨h, hle, hb⟩
        exact ⟨h, hle, .binaryLeftError hb⟩
      rintro u s₁ hctx₁ ⟨h₁, hle₁, hl⟩
      refine (ihr env s₁ hctx₁ (hs.after (hl.leaves hQ henv)) henv).bind ?_ ?_
      · rintro err t ⟨h, hle, hb⟩
        exact ⟨max h₁ h, Nat.max_le.mpr ⟨hle₁, hle⟩, .binaryRightError hl hb⟩
      rintro v s₂ hctx₂ ⟨h₂, hle₂, hr⟩
      exact ⟨hctx₂, .inr ⟨max h₁ h₂, Nat.max_le.mpr ⟨hle₁, hle₂⟩, .binary hl hr⟩⟩
  | letIn rec x e b ihe ihb =>
      rintro env s rfl hs henv
      simp only [Expr.evalWith]
      rw [Run.poll_bind _ _ hs.clear]
      refine (ihe env s rfl hs henv).bind ?_ ?_
      · rintro err t ⟨h, hle, hb⟩
        exact ⟨h, hle, .letError hb⟩
      rintro u s₁ hctx₁ ⟨h₁, hle₁, he⟩
      have hk₁ := he.leaves hQ henv
      have hs₁ := hs.after hk₁
      rcases u.plain_or_closure rec with hv | ⟨c, rfl, rfl⟩
      · rw [Run.bind_ok (Value.bound_plain hv x s₁)]
        exact (ihb (.frame s₁.store.next x u env) { s₁ with store := s₁.store.taken 1 } hctx₁
          (hs₁.taken 1) ⟨hk₁.value, henv⟩).last hle₁ (.letPlain he hv)
      · -- the two rules differ in whether the closure had a self name before
        have htied : (Value.closure (c.tie x s₁.store).1).Within Q :=
          Closure.Every.tie hk₁.value x s₁.store trivial
        rw [Run.bind_ok (Value.bound_closure c x s₁)]
        cases hc : c.selfName with
        | none =>
            rw [Closure.tie_of_none hc] at htied ⊢
            exact (ihb (.frame (s₁.store.next + 1) x _ env) ⟨s₁.context, s₁.store.taken 2, _⟩ hctx₁
              (hs₁.taken 2) ⟨htied, henv⟩).last hle₁ (.letRec he hc)
        | some g =>
            rw [Closure.tie_of_some hc] at htied ⊢
            exact (ihb (.frame (s₁.store.next + 2) x _ env) ⟨s₁.context, s₁.store.taken 3, _⟩ hctx₁
              (hs₁.taken 3) ⟨htied, henv⟩).last hle₁ (.letRecAgain he hc)

end

/-- The call of a builtin has a derivation at any height. -/
theorem builtin_explained {host : Host κ σ} {room : Nat} {s : Run.State κ σ} {b : Builtin κ}
    {v : Value κ} :
    Explained s.context (Applies host room s.store (.builtin b) v)
      (callAt host room (.builtin b) v s) := by
  cases hb : b.code with
  | intrinsic i =>
      rw [callAt_intrinsic host room hb]
      exact ⟨rfl, .inr fun _ _ _ _ _ _ _ hle₁ hle₂ hf ha =>
        ⟨_, Nat.max_le.mpr ⟨hle₁, hle₂⟩, .appIntrinsic hf ha hb⟩⟩
  | host code =>
      rw [callAt_host host room hb]
      exact ⟨rfl, .inr fun _ _ _ _ _ _ _ hle₁ hle₂ hf ha =>
        ⟨_, Nat.max_le.mpr ⟨hle₁, hle₂⟩, .appHost hf ha hb rfl⟩⟩

/-- The call of a closure has a derivation when its body has one. -/
theorem closure_explained {host : Host κ σ} {room : Nat} {s : Run.State κ σ} {c : Closure κ}
    {v : Value κ} (hs : s.context.Ready s.store (room + 1))
    (hbody : Explained (s.inside c v).context
      (Fits host room (s.inside c v).store (c.callEnv v s.store).1 c.body)
      (c.body.evalWith (callAt host room) (c.callEnv v s.store).1 (s.inside c v))) :
    Explained s.context (Applies host (room + 1) s.store (.closure c) v)
      (callAt host (room + 1) (.closure c) v s) := by
  rw [callAt_closure host room c v hs.lt]
  generalize c.body.evalWith (callAt host room) (c.callEnv v s.store).1 (s.inside c v) = out
    at hbody ⊢
  obtain ⟨hctx, hbody⟩ := hbody
  refine ⟨by simp only [Run.State.leave, hctx]; rfl, hbody.imp_right ?_⟩
  rintro ⟨h₃, hle₃, hb⟩ t₀ t₁ env f a h₁ h₂ hle₁ hle₂ hf ha
  have hle : max (max h₁ h₂) (h₃ + 1) ≤ room + 1 :=
    Nat.max_le.mpr ⟨Nat.max_le.mpr ⟨hle₁, hle₂⟩, Nat.succ_le_succ hle₃⟩
  cases hc : c.selfName with
  | none =>
      simp only [Run.State.inside, Closure.callEnv_of_none hc] at hb
      exact ⟨_, hle, .appClosure hf ha hc hb⟩
  | some g =>
      simp only [Run.State.inside, Closure.callEnv_of_some hc] at hb
      exact ⟨_, hle, .appRecursive hf ha hc hb⟩

/-- **Soundness.**  In a context with room for `room` calls, the outcome of a call is that of a
derivation with at most so many nested calls, or the limit was reached. -/
theorem callAt_explained {host : Host κ σ} {Q : κ → Prop} (room : Nat) :
    ∀ {ctx : Context}, host.Leaves ctx.flag Q → ∀ u v s, s.context = ctx →
      ctx.Ready s.store room → u.Within Q → v.Within Q → u.isCallable = true →
      Explained ctx (Applies host room s.store u v) (callAt host room u v s) := by
  induction room with
  | zero =>
      rintro ctx hQ u v s rfl hs hu hv hcallable
      cases u with
      | int n | bool n | str n => cases hcallable
      | builtin b => exact builtin_explained
      | closure c =>
          have hfull : s.context.depth = s.context.limit := hs.room
          rw [callAt_closure_full host 0 c v (Nat.le_of_eq hfull.symm)]
          refine ⟨rfl, .inl ?_⟩
          simp only [Run.overflow, hfull]
  | succ room ih =>
      rintro ctx hQ u v s rfl hs hu hv hcallable
      cases u with
      | int n | bool n | str n => cases hcallable
      | builtin b => exact builtin_explained
      | closure c =>
          have hQ' : host.Leaves (s.inside c v).context.flag Q := hQ
          exact closure_explained hs (evalWith_explained hQ' (ih hQ') c.body _ (s.inside c v) rfl
            (hs.inside c v) (Closure.Every.callEnv hu hv s.store))

/-! ### Adequacy -/

theorem Context.ready_room {ctx : Context} {t : Store σ} (hclear : ctx.isInterrupted t = false)
    (hdepth : ctx.depth ≤ ctx.limit) : ctx.Ready t ctx.room :=
  ⟨hclear, Nat.add_sub_of_le hdepth⟩

/-- **Adequacy.**  With a clear flag and at a depth within the limit, over builtins that leave the
flag alone, an expression evaluates to the outcome of its derivation if the calls of the derivation
fit under the limit, and leaves the store of the derivation and the context as it was.  In every
other case, because the derivation is nested too deeply or because there is none, the limit is
reached. -/
theorem eval_adequate {host : Host κ σ} {Q : κ → Prop} {env : Env κ} {s : Run.State κ σ}
    (hQ : host.Leaves s.context.flag Q) (henv : env.Within Q)
    (hclear : s.context.isInterrupted s.store = false)
    (hdepth : s.context.depth ≤ s.context.limit) (e : Expr) :
    (∀ r h t, BigStep host s.store env e r h t → s.context.depth + h ≤ s.context.limit →
      ∃ log, e.eval host env s = (r, ⟨s.context, t, log⟩)) ∧
    ((∀ r h t, BigStep host s.store env e r h t → s.context.limit < s.context.depth + h) →
      (e.eval host env s).1 = .error (.stackOverflow s.context.limit s.context.limit)) := by
  have hs := Context.ready_room hclear hdepth
  refine ⟨fun r h t hb hfit => ?_, fun hnone => ?_⟩
  · exact hb.followed s.log hQ hs (Nat.le_sub_of_add_le' hfit) henv
  · obtain ⟨-, hover | ⟨h, hle, hb⟩⟩ :=
      evalWith_explained hQ (callAt_explained s.context.room hQ) e env s rfl hs henv
    · exact hover
    · have hdeep := hnone _ h _ hb
      have hroom := hs.room
      omega

/-- An environment that binds the host's function that joins two strings, given one after the
other. -/
def joining : Env Stock := .frame 1 "p" (.builtin ⟨0, "p", .host (.pair "p"), .empty⟩) .empty

/-- `(\x => p x "b") "a"`, in which `p x` yields a function of the host. -/
def joinTwo : Expr :=
  .app (.lam "x" none (.app (.app (.var "p") (.var "x")) (.str "b"))) (.str "a")

/-- A state with the flag down, for at most `limit` calls. -/
def upTo (limit : Nat) : Run.State Stock Stock.Counts :=
  .start ⟨limit, 0, 7⟩ ⟨2, fun _ => false, fun _ => 0⟩

/-- The function that joins strings, and the one that it yields, leave every flag alone. -/
theorem joining_leaves (flag : Flag) :
    Stock.host.Leaves flag fun k => k = .pair "p" ∨ k = .join := by
  rintro code captured arg t (rfl | rfl) - harg
  · refine ⟨rfl, fun v hv => ?_⟩
    cases hv
    exact ⟨.inr rfl, harg, trivial⟩
  · cases hfirst : captured.lookup? Stock.first with
    | none =>
        have hcall : Stock.host.call .join captured arg t =
            (.error (.unboundVariable Stock.first), t) := by
          simp only [Stock.host, Stock.call, hfirst]; rfl
        rw [hcall]
        exact ⟨rfl, fun v hv => by cases hv⟩
    | some a =>
        have hcall : Stock.host.call .join captured arg t = (Operator.concat.apply a arg, t) := by
          simp only [Stock.host, Stock.call, hfirst]; rfl
        rw [hcall]
        exact ⟨rfl, fun v (hv : Operator.concat.apply a arg = .ok v) => Operator.every_of_apply hv⟩

/-- With room for one call the strings are joined; with none the call is refused. -/
theorem eval_adequate_joinTwo :
    (joinTwo.eval Stock.host joining (upTo 1)).1 = .ok (.str "ab") ∧
      (joinTwo.eval Stock.host joining (upTo 0)).1 = .error (.stackOverflow 0 0) := by
  have hheld : joining.Within fun k => k = .pair "p" ∨ k = .join := ⟨⟨.inl rfl, trivial⟩, trivial⟩
  constructor
  · obtain ⟨hfits, -⟩ :=
      eval_adequate (s := upTo 1) (joining_leaves 7) hheld rfl (by decide) joinTwo
    obtain ⟨log, hrun⟩ := hfits (.ok (.str "ab")) 1 _
      (.appClosure .lam .str rfl (.appHost (.appHost (.var rfl) (.var rfl) rfl rfl) .str rfl rfl))
      (by decide)
    rw [hrun]
  · refine (eval_adequate (s := upTo 0) (joining_leaves 7) hheld rfl (by decide) joinTwo).2 ?_
    intro r h t hb
    cases hb with
    | appFuncError hf => cases hf
    | appNoFunction hf hu => cases hf; cases hu
    | appArgError hf hu ha => cases ha
    | appIntrinsic hf => cases hf
    | appHost hf => cases hf
    | appClosure | appRecursive =>
        show 0 < 0 + max _ _
        omega

end EagerLambda
