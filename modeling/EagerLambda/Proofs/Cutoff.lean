import EagerLambda.Proofs.Machines
import EagerLambda.Proofs.Simulation

/-!
# Cutoff — two runs, the first of which may be cut short

Two runs do the same work side by side, but something can put an end to the first that does not
concern the second: a lower limit, or a flag that is raised.  As long as that does not happen they
correspond; when it does, the first run fails at once with one certain error, and what it had
recorded by then is the beginning of what the second records.  `Run.Until` says so of two runs, and
there is one rule for each way in which runs are put together.

What is compared is a parameter (`Cutoff`): which values, environments and states correspond, the
error that cuts the first run short, and what it leaves behind.  `Cutoff.Lawful` collects what the
rules ask of it.  Unlike in a simulation, corresponding runs draw the same identities.

The second run goes on after the first was cut short, so its part of the comparison has to survive
whatever it does later.  That is where `Run.Adds` comes in: a run takes back nothing of what is
recorded.
-/

namespace EagerLambda

variable {κ σ α α' β β' : Type}

/-! ### Runs that correspond until the first is cut short -/

/-- What is compared when two runs are followed of which the first may be cut short. -/
structure Cutoff (κ σ : Type) where
  /-- Corresponding values. -/
  value : Value κ → Value κ → Prop
  /-- Corresponding environments. -/
  env : Env κ → Env κ → Prop
  /-- Corresponding states at the given depth. -/
  state : Nat → Run.State κ σ → Run.State κ σ → Prop
  /-- The error that cuts the first run short. -/
  error : EvalError κ
  /-- The state in which the first run was cut short, beside one in which the second goes on. -/
  cut : Run.State κ σ → Run.State κ σ → Prop

/-- Two outcomes correspond, or the first is that of a run that was cut short. -/
def Cutoff.Ends (C : Cutoff κ σ) (d : Nat) (A : α → α' → Prop)
    (out : Except (EvalError κ) α × Run.State κ σ)
    (out' : Except (EvalError κ) α' × Run.State κ σ) : Prop :=
  (Outcome.Like C.value A out.1 out'.1 ∧ C.state d out.2 out'.2) ∨
    (out.1 = .error C.error ∧ C.cut out.2 out'.2)

/-- From corresponding states at depth `d`, the two runs correspond unless the first is cut
short. -/
def Run.Until (C : Cutoff κ σ) (d : Nat) (A : α → α' → Prop) (x : Run κ σ α) (y : Run κ σ α') :
    Prop := ∀ s t, C.state d s t → C.Ends d A (x s) (y t)

/-- The event tells of work that was done: a call, or a closure made recursive. -/
def Event.isWork : Event κ → Bool
  | .closureCall _ _ _ | .builtinCall _ _ | .tied _ _ => true
  | _ => false

/-- What the rules ask of a comparison. -/
structure Cutoff.Lawful (C : Cutoff κ σ) (host : Host κ σ) : Prop where
  faithful : Value.Faithful C.value
  lookup : ∀ {env env' : Env κ}, C.env env env' → ∀ x,
    Option.Rel C.value (env.lookup? x) (env'.lookup? x)
  frame : ∀ {env env' : Env κ} {v v' : Value κ}, C.env env env' → C.value v v' → ∀ id x,
    C.env (.frame id x v env) (.frame id x v' env')
  /-- Closures correspond if they differ in what they have captured only, and that corresponds. -/
  closure_iff : ∀ {c : Closure κ} {w : Value κ}, C.value (.closure c) w ↔
    ∃ env', w = .closure { c with env := env' } ∧ C.env c.env env'
  depth : ∀ {d : Nat} {s t : Run.State κ σ}, C.state d s t →
    s.context.depth = d ∧ t.context.depth = d
  next : ∀ {d : Nat} {s t : Run.State κ σ}, C.state d s t → s.store.next = t.store.next
  taken : ∀ {d : Nat} {s t : Run.State κ σ}, C.state d s t → ∀ n,
    C.state d { s with store := s.store.taken n } { t with store := t.store.taken n }
  record : ∀ {d : Nat} {s t : Run.State κ σ} {event event' : Event κ}, C.state d s t →
    event.Like C.value event' → event.isWork = true →
    C.state d { s with log := event :: s.log } { t with log := event' :: t.log }
  deeper : ∀ {d : Nat} {s t : Run.State κ σ}, C.state d s t → d < s.context.limit →
    C.state (d + 1) { s with context := { s.context with depth := d + 1 } }
      { t with context := { t.context with depth := d + 1 } }
  leave : ∀ {d : Nat} {s t : Run.State κ σ}, C.state (d + 1) s t → C.state d s.leave t.leave
  poll : ∀ (d : Nat) (kind : Kind), Run.Until C d (fun _ _ => True) (Run.poll kind) (Run.poll kind)
  builtin : ∀ (d : Nat) {b b' : Builtin κ} {v v' : Value κ},
    C.value (.builtin b) (.builtin b') → C.value v v' →
    Run.Until C d C.value (b.run host v) (b'.run host v')
  /-- Whatever else the second run records, the first was cut short before. -/
  cut_mono : ∀ {s t t' : Run.State κ σ}, C.cut s t → t.log <:+ t'.log → C.cut s t'
  cut_leave : ∀ {s t : Run.State κ σ}, C.cut s t → C.cut s.leave t

namespace Run.Until

variable {C : Cutoff κ σ} {host : Host κ σ} {d : Nat} {A : α → α' → Prop} {B : β → β' → Prop}

theorem pure {a : α} {a' : α'} (h : A a a') :
    Until C d A (Pure.pure a : Run κ σ α) (Pure.pure a' : Run κ σ α') :=
  fun _ _ hst => .inl ⟨.ok h, hst⟩

theorem fail {e e' : EvalError κ} (h : e.Like C.value e') :
    Until C d A (Run.fail e : Run κ σ α) (Run.fail e' : Run κ σ α') :=
  fun _ _ hst => .inl ⟨.error h, hst⟩

theorem ofExcept {r : Except (EvalError κ) α} {r' : Except (EvalError κ) α'}
    (h : Outcome.Like C.value A r r') :
    Until C d A (Run.ofExcept r : Run κ σ α) (Run.ofExcept r' : Run κ σ α') :=
  fun _ _ hst => .inl ⟨h, hst⟩

/-- **Sequences.**  If the first run is cut short in its first part, the second still has its
second part before it, from whatever its first part has yielded. -/
theorem bind (hC : C.Lawful host) {x : Run κ σ α} {y : Run κ σ α'} {f : α → Run κ σ β}
    {g : α' → Run κ σ β'} (hx : Until C d A x y) (hf : ∀ a a', A a a' → Until C d B (f a) (g a'))
    (hg : ∀ a', (g a').Adds) : Until C d B (x >>= f) (y >>= g) := by
  intro s t hst
  have hend := hx s t hst
  rcases hxs : x s with ⟨r, s₁⟩
  rcases hyt : y t with ⟨r', t₁⟩
  rw [hxs, hyt] at hend
  rcases hend with ⟨hout, hst₁⟩ | ⟨herr, hcut⟩
  · cases hout with
    | ok h =>
        rw [bind_ok hxs, bind_ok hyt]
        exact hf _ _ h s₁ t₁ hst₁
    | error h =>
        rw [bind_error hxs, bind_error hyt]
        exact .inl ⟨.error h, hst₁⟩
  · obtain rfl : r = .error C.error := herr
    rw [bind_error hxs]
    refine .inr ⟨rfl, ?_⟩
    cases r' with
    | error e =>
        rw [bind_error hyt]
        exact hcut
    | ok a' =>
        rw [bind_ok hyt]
        exact hC.cut_mono hcut ((hg a').suffix t₁)

theorem record (hC : C.Lawful host) {event event' : Event κ} (h : event.Like C.value event')
    (hwork : event.isWork = true) :
    Until C d (fun _ _ => True) (Run.record event : Run κ σ Unit) (Run.record event') :=
  fun _ _ hst => .inl ⟨.ok trivial, hC.record hst h hwork⟩

/-- Both runs make the same things, with the same identities. -/
theorem alloc (hC : C.Lawful host) {x : Alloc σ α} {y : Alloc σ α'} {n : Nat} {f : Nat → α}
    {g : Nat → α'} (hx : ∀ t, x t = (f t.next, t.taken n)) (hy : ∀ t, y t = (g t.next, t.taken n))
    (h : ∀ id, A (f id) (g id)) :
    Until C d A (Run.alloc x : Run κ σ α) (Run.alloc y : Run κ σ α') := by
  intro s t hst
  simp only [Run.alloc, hx, hy]
  refine .inl ⟨.ok ?_, hC.taken hst n⟩
  rw [← hC.next hst]
  exact h s.store.next

end Run.Until

namespace Cutoff.Lawful

variable {C : Cutoff κ σ} {host : Host κ σ} {d : Nat}

/-! ### Closures -/

theorem callable (hC : C.Lawful host) {u u' : Value κ} (h : C.value u u') :
    u.isCallable = u'.isCallable := hC.faithful.callable h

/-- What a `let` binds for corresponding values. -/
theorem bound (hC : C.Lawful host) {v w : Value κ} (h : C.value v w) (rec : Bool) (x : String) :
    Run.Until C d C.value (v.bound rec x) (w.bound rec x) := by
  rcases v.plain_or_closure rec with hplain | ⟨c, rfl, rfl⟩
  · have hplain' : rec = false ∨ ∀ c, w ≠ .closure c := by
      refine hplain.imp_right fun hv c hc => ?_
      have htag : v.tag = .closure := (hC.faithful.tag h).trans (by rw [hc]; rfl)
      cases v with
      | closure c' => exact hv c' rfl
      | int n | bool n | str n | builtin n => cases htag
    intro s t hst
    rw [Value.bound_plain hplain, Value.bound_plain hplain']
    exact .inl ⟨.ok h, hst⟩
  · obtain ⟨env', rfl, henv⟩ := hC.closure_iff.mp h
    refine .bind hC (.record hC (.tied x c.param) rfl) (fun _ _ _ => ?_)
      fun _ => (Run.Adds.alloc _).bind fun _ => .pure _
    refine .bind (A := fun c c' => C.value (.closure c) (.closure c')) hC ?_
      (fun _ _ h => .pure h) fun _ => .pure _
    obtain ⟨id, p, b, self, env⟩ := c
    cases self with
    | none =>
        refine .alloc hC (f := fun next => ⟨next, p, b, some x, env⟩)
          (g := fun next => ⟨next, p, b, some x, env'⟩)
          (Closure.tie_of_none rfl x) (Closure.tie_of_none rfl x) fun next => ?_
        exact hC.closure_iff.mpr ⟨env', rfl, henv⟩
    | some g =>
        refine .alloc hC (f := fun next => ⟨next + 1, p, b, some x,
            .frame next g (.closure ⟨id, p, b, some g, env⟩) env⟩)
          (g := fun next => ⟨next + 1, p, b, some x,
            .frame next g (.closure ⟨id, p, b, some g, env'⟩) env'⟩)
          (Closure.tie_of_some rfl x) (Closure.tie_of_some rfl x) fun next => ?_
        exact hC.closure_iff.mpr ⟨_, rfl, hC.frame henv h next g⟩

/-- The environments of corresponding calls, and the identities that they use up. -/
theorem callEnv (hC : C.Lawful host) {c : Closure κ} {env' : Env κ} (henv : C.env c.env env')
    {v v' : Value κ} (hv : C.value v v') {t t' : Store σ} (hnext : t.next = t'.next) :
    C.env (c.callEnv v t).1 (({ c with env := env' } : Closure κ).callEnv v' t').1 ∧
      ∃ n, (c.callEnv v t).2 = t.taken n ∧
        (({ c with env := env' } : Closure κ).callEnv v' t').2 = t'.taken n := by
  obtain ⟨id, p, b, self, env⟩ := c
  cases self with
  | none =>
      rw [Closure.callEnv_of_none rfl, Closure.callEnv_of_none rfl, hnext]
      exact ⟨hC.frame henv hv _ _, 1, rfl, rfl⟩
  | some g =>
      have hself : C.value (.closure ⟨id, p, b, some g, env⟩) (.closure ⟨id, p, b, some g, env'⟩) :=
        hC.closure_iff.mpr ⟨env', rfl, henv⟩
      rw [Closure.callEnv_of_some rfl, Closure.callEnv_of_some rfl, hnext]
      exact ⟨hC.frame (hC.frame henv hself _ _) hv _ _, 2, rfl, rfl⟩

/-- Inside corresponding calls, the states correspond one level deeper. -/
theorem inside (hC : C.Lawful host) {c : Closure κ} {env' : Env κ} (henv : C.env c.env env')
    {v v' : Value κ} (hv : C.value v v') {s t : Run.State κ σ} (hst : C.state d s t)
    (hroom : d < s.context.limit) :
    C.state (d + 1) (s.inside c v) (t.inside { c with env := env' } v') := by
  obtain ⟨hs, ht⟩ := hC.depth hst
  obtain ⟨-, n, hstore, hstore'⟩ := hC.callEnv henv hv (hC.next hst)
  have hevent : (Event.closureCall c.param v (d + 1)).Like C.value
      (.closureCall c.param v' (d + 1)) := .closureCall _ _ hv
  simp only [Run.State.inside, hstore, hstore', hs, ht]
  exact hC.record (hC.taken (hC.deeper hst hroom) n) hevent rfl

/-! ### Expressions and calls -/

/-- Evaluation follows evaluation, if calls follow calls. -/
theorem evalWith (hC : C.Lawful host) {call call' : Value κ → Value κ → Run κ σ (Value κ)}
    (hcall : ∀ u u' v v', C.value u u' → C.value v v' →
      Run.Until C d C.value (call u v) (call' u' v'))
    (hadds : ∀ u v, (call' u v).Adds) (e : Expr) :
    ∀ env env', C.env env env' →
      Run.Until C d C.value (e.evalWith call env) (e.evalWith call' env') := by
  have heval := Expr.evalWith_adds hadds
  induction e with
  | int n | bool b | str s =>
      exact fun env env' _ => .bind hC (hC.poll d _) (fun _ _ _ => .pure (hC.faithful.base rfl))
        fun _ => .pure _
  | var x =>
      intro env env' henv
      refine .bind hC (hC.poll d .var) (fun _ _ _ => ?_) fun _ => ?_
      · have hfound := hC.lookup henv x
        generalize env.lookup? x = found at hfound ⊢
        generalize env'.lookup? x = found' at hfound ⊢
        cases hfound with
        | some h => exact .pure h
        | none => exact .fail (.unboundVariable x)
      · cases env'.lookup? x with
        | some v => exact .pure v
        | none => exact .fail _
  | lam x ty b ih =>
      intro env env' henv
      refine .bind hC (hC.poll d .lam) (fun _ _ _ => ?_)
        fun _ => (Run.Adds.alloc _).bind fun _ => .pure _
      refine .bind (A := fun c c' => C.value (.closure c) (.closure c')) hC ?_
        (fun _ _ h => .pure h) fun _ => .pure _
      exact .alloc (n := 1) (f := fun id => ⟨id, x, b, none, env⟩)
        (g := fun id => ⟨id, x, b, none, env'⟩) hC (fun _ => rfl) (fun _ => rfl)
        fun id => hC.closure_iff.mpr ⟨env', rfl, henv⟩
  | app f a ihf iha =>
      intro env env' henv
      have hrest (u : Value κ) : Run.Adds (if u.isCallable then do
          let v ← a.evalWith call' env'
          call' u v
        else Run.fail (.notAFunction u)) := by
        split
        · exact (heval a env').bind fun v => hadds u v
        · exact .fail _
      refine .bind hC (hC.poll d .app) (fun _ _ _ => ?_) fun _ => (heval f env').bind hrest
      refine .bind hC (ihf env env' henv) (fun u u' hu => ?_) hrest
      by_cases hcallable : u.isCallable = true
      · rw [if_pos hcallable, if_pos (hC.callable hu ▸ hcallable)]
        exact .bind hC (iha env env' henv) (fun v v' hv => hcall u u' v v' hu hv)
          fun v => hadds u' v
      · rw [if_neg hcallable, if_neg (hC.callable hu ▸ hcallable)]
        exact .fail (.notAFunction hu)
  | cond e yes no ihe ihy ihn =>
      intro env env' henv
      refine .bind hC (hC.poll d .cond)
        (fun _ _ _ => .bind hC (ihe env env' henv) ?branch fun u => ?_)
        fun _ => (heval e env').bind fun u => ?_
      case branch =>
        intro u u' hu
        cases u with
        | bool b =>
            obtain rfl := hC.faithful.eq hu rfl
            cases b with
            | true => exact ihy env env' henv
            | false => exact ihn env env' henv
        | int n | str n =>
            obtain rfl := hC.faithful.eq hu rfl
            exact .fail (.nonBooleanCondition hu)
        | closure c | builtin b =>
            have hcallable := hC.callable hu
            cases u' with
            | closure c' | builtin b' => exact .fail (.nonBooleanCondition hu)
            | int n | bool n | str n => cases hcallable
      -- what is left to do after the test only ever adds to the log
      all_goals
        split
        · exact heval yes env'
        · exact heval no env'
        · exact .fail _
  | binary l op r ihl ihr =>
      intro env env' henv
      refine .bind hC (hC.poll d .binary) (fun _ _ _ => ?_)
        fun _ => (heval l env').bind fun _ => (heval r env').bind fun _ => .ofExcept _
      refine .bind hC (ihl env env' henv) (fun u u' hu => ?_)
        fun _ => (heval r env').bind fun _ => .ofExcept _
      exact .bind hC (ihr env env' henv)
        (fun v v' hv => .ofExcept (op.apply_like hC.faithful.toKindred hu hv)) fun _ => .ofExcept _
  | letIn rec x e b ihe ihb =>
      intro env env' henv
      have hbody (v : Value κ) : Run.Adds (do
          let env ← Run.alloc (env'.extend x v)
          b.evalWith call' env : Run κ σ (Value κ)) := (Run.Adds.alloc _).bind (heval b)
      have hrest (v : Value κ) := (Run.Adds.related.bound rec x v).bind hbody
      refine .bind hC (hC.poll d .letIn) (fun _ _ _ => ?_) fun _ => (heval e env').bind hrest
      refine .bind hC (ihe env env' henv) (fun v v' hv => ?_) hrest
      refine .bind hC (hC.bound hv rec x) (fun w w' hw => ?_) hbody
      refine .bind hC ?_ ihb (heval b)
      exact .alloc (n := 1) (f := fun id => .frame id x w env) (g := fun id => .frame id x w' env')
        hC (fun _ => rfl) (fun _ => rfl) fun id => hC.frame henv hw id x

section

variable {evalBody evalBody' : Expr → Env κ → Run κ σ (Value κ)}

/-- A call of a closure below both limits follows its body. -/
theorem closure_within (hC : C.Lawful host)
    (hbody : ∀ e env env', C.env env env' →
      Run.Until C (d + 1) C.value (evalBody e env) (evalBody' e env'))
    {c c' : Closure κ} (hc : C.value (.closure c) (.closure c')) {v v' : Value κ}
    (hv : C.value v v') {s t : Run.State κ σ} (hst : C.state d s t) (hs : d < s.context.limit)
    (ht : d < t.context.limit) :
    C.Ends d C.value ((Value.closure c).callWith host evalBody v s)
      ((Value.closure c').callWith host evalBody' v' t) := by
  obtain ⟨env', heq, henv⟩ := hC.closure_iff.mp hc
  obtain rfl : c' = { c with env := env' } := by injection heq
  obtain ⟨hds, hdt⟩ := hC.depth hst
  rw [Value.callWith_closure host _ c v (hds.symm ▸ hs),
    Value.callWith_closure host _ _ v' (hdt.symm ▸ ht)]
  have hcall := (hC.callEnv henv hv (hC.next hst)).1
  rcases hbody c.body _ _ hcall _ _ (hC.inside henv hv hst hs) with ⟨hout, hst'⟩ | ⟨herr, hcut⟩
  · exact .inl ⟨hout, hC.leave hst'⟩
  · exact .inr ⟨herr, hC.cut_mono (hC.cut_leave hcut) (List.suffix_refl _)⟩

/-- Calls follow calls, if calls of closures do. -/
theorem callWith (hC : C.Lawful host)
    (hclosure : ∀ c c' v v', C.value (.closure c) (.closure c') → C.value v v' →
      Run.Until C d C.value ((Value.closure c).callWith host evalBody v)
        ((Value.closure c').callWith host evalBody' v'))
    (u u' v v' : Value κ) (hu : C.value u u') (hv : C.value v v') :
    Run.Until C d C.value (u.callWith host evalBody v) (u'.callWith host evalBody' v') := by
  have htag := hC.faithful.tag hu
  cases u with
  | int n | bool n | str n =>
      obtain rfl := hC.faithful.eq hu rfl
      exact .fail (.notAFunction hu)
  | closure c =>
      cases u' with
      | closure c' => exact hclosure c c' v v' hu hv
      | int n | bool n | str n | builtin n => cases htag
  | builtin b =>
      cases u' with
      | builtin b' => exact hC.builtin d hu hv
      | int n | bool n | str n | closure n => cases htag

end

theorem callAt (hC : C.Lawful host) {room room' : Nat}
    (hclosure : ∀ c c' v v', C.value (.closure c) (.closure c') → C.value v v' →
      Run.Until C d C.value (callAt host room (.closure c) v) (callAt host room' (.closure c') v'))
    (u u' v v' : Value κ) (hu : C.value u u') (hv : C.value v v') :
    Run.Until C d C.value (EagerLambda.callAt host room u v)
      (EagerLambda.callAt host room' u' v') := by
  cases room <;> cases room' <;> exact hC.callWith hclosure u u' v v' hu hv

end Cutoff.Lawful

end EagerLambda
