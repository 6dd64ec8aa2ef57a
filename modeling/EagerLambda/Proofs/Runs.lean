import EagerLambda.Eval.Basic
import EagerLambda.Eval.Stock

/-!
# Runs — what they compute

The equations by which a run is followed from a known state.  A sequence goes on or stops according
to its first part (`Run.bind_ok`, `Run.bind_error`), a clear flag lets every node through
(`Run.poll_clear`), and a call of a closure is the evaluation of its body in the state inside the
call (`Value.callWith_closure`), unless the context is full (`Value.callWith_closure_full`).

None of the changes of the store that evaluation makes on its own touches a flag
(`Alloc.Quiet`): only a function of the host can raise or lower one.
-/

namespace EagerLambda

variable {κ σ α β γ : Type}

/-! ### Sequences -/

namespace Run

theorem bind_ok {x : Run κ σ α} {f : α → Run κ σ β} {s s' : State κ σ} {a : α}
    (h : x s = (.ok a, s')) : (x >>= f) s = f a s' := by
  show Run.bind x f s = f a s'
  simp only [Run.bind, h]

theorem bind_error {x : Run κ σ α} {f : α → Run κ σ β} {s s' : State κ σ} {e : EvalError κ}
    (h : x s = (.error e, s')) : (x >>= f) s = (.error e, s') := by
  show Run.bind x f s = (.error e, s')
  simp only [Run.bind, h]

theorem bind_assoc (x : Run κ σ α) (f : α → Run κ σ β) (g : β → Run κ σ γ) :
    (x >>= f) >>= g = x >>= fun a => f a >>= g := by
  funext s
  rcases hx : x s with ⟨_ | a, s₁⟩
  · rw [bind_error (bind_error hx), bind_error hx]
  · rw [bind_ok hx]
    show Run.bind (x >>= f) g s = Run.bind (f a) g s₁
    simp only [Run.bind, bind_ok hx]

theorem poll_clear {s : State κ σ} (kind : Kind) (h : s.context.isInterrupted s.store = false) :
    poll kind s = (.ok (), s) := by
  simp [poll, h]

/-- A node that is looked at with a clear flag is as if the flag were not there. -/
theorem poll_bind {s : State κ σ} (kind : Kind) (f : Unit → Run κ σ β)
    (h : s.context.isInterrupted s.store = false) :
    ((Machine.poll kind : Run κ σ Unit) >>= f) s = f () s :=
  bind_ok (poll_clear kind h)

theorem poll_raised {s : State κ σ} (kind : Kind) (h : s.context.isInterrupted s.store = true) :
    poll kind s = (.error .interrupted, { s with log := .interrupted kind :: s.log }) := if_pos h

/-- A node that is looked at with the flag raised is all there is. -/
theorem poll_bind_raised {s : State κ σ} (kind : Kind) (f : Unit → Run κ σ β)
    (h : s.context.isInterrupted s.store = true) :
    ((Machine.poll kind : Run κ σ Unit) >>= f) s =
      (.error .interrupted, { s with log := .interrupted kind :: s.log }) :=
  bind_error (poll_raised kind h)

/-- The state one level deeper. -/
def State.deeper (s : State κ σ) : State κ σ :=
  { s with context := { s.context with depth := s.context.depth + 1 } }

theorem enter_below {s : State κ σ} (h : s.context.depth < s.context.limit) :
    enter s = (.ok (s.context.depth + 1), s.deeper) := by
  simp [enter, Context.enter?, State.deeper, h]

theorem enter_full {s : State κ σ} (h : s.context.limit ≤ s.context.depth) :
    (enter : Run κ σ Nat) s = overflow s := by
  simp [enter, Context.enter?, Nat.not_lt.mpr h]

end Run

/-! ### Calls -/

/-- The state in which the body of `c` starts when `c` is called with `arg` in the state `s`. -/
def Run.State.inside (s : Run.State κ σ) (c : Closure κ) (arg : Value κ) : Run.State κ σ where
  context := { s.context with depth := s.context.depth + 1 }
  store := (c.callEnv arg s.store).2
  log := .closureCall c.param arg (s.context.depth + 1) :: s.log

/-- The state when a call is over. -/
def Run.State.leave (s : Run.State κ σ) : Run.State κ σ := { s with context := s.context.leave }

/-- **A call below the limit** evaluates the body inside the call and then leaves it. -/
theorem Value.callWith_closure (host : Host κ σ) (evalBody : Expr → Env κ → Run κ σ (Value κ))
    (c : Closure κ) (arg : Value κ) {s : Run.State κ σ} (h : s.context.depth < s.context.limit) :
    (Value.closure c).callWith host evalBody arg s =
      let out := evalBody c.body (c.callEnv arg s.store).1 (s.inside c arg)
      (out.1, out.2.leave) := by
  refine (Run.bind_ok (Run.enter_below h)).trans ?_
  rfl

/-- **A call at the limit** is refused. -/
theorem Value.callWith_closure_full (host : Host κ σ)
    (evalBody : Expr → Env κ → Run κ σ (Value κ)) (c : Closure κ) (arg : Value κ)
    {s : Run.State κ σ} (h : s.context.limit ≤ s.context.depth) :
    (Value.closure c).callWith host evalBody arg s = Run.overflow s :=
  Run.bind_error (Run.enter_full h)

theorem callAt_closure (host : Host κ σ) (room : Nat) (c : Closure κ) (arg : Value κ)
    {s : Run.State κ σ} (h : s.context.depth < s.context.limit) :
    callAt host (room + 1) (.closure c) arg s =
      let out := c.body.evalWith (callAt host room) (c.callEnv arg s.store).1 (s.inside c arg)
      (out.1, out.2.leave) :=
  Value.callWith_closure host _ c arg h

/-- At the limit a call is refused whatever the room. -/
theorem callAt_closure_full (host : Host κ σ) (room : Nat) (c : Closure κ) (arg : Value κ)
    {s : Run.State κ σ} (h : s.context.limit ≤ s.context.depth) :
    callAt host room (.closure c) arg s = Run.overflow s := by
  cases room <;> exact Value.callWith_closure_full host _ c arg h

/-- A builtin is run at any depth. -/
theorem callAt_builtin (host : Host κ σ) (room : Nat) (b : Builtin κ) (arg : Value κ) :
    callAt host room (.builtin b) arg = b.run host arg := by
  cases room <;> rfl

theorem Builtin.run_intrinsic (host : Host κ σ) {b : Builtin κ} {i : Intrinsic}
    (hb : b.code = .intrinsic i) (arg : Value κ) (s : Run.State κ σ) :
    b.run host arg s = (i.apply arg, { s with log := .builtinCall b.name arg :: s.log }) := by
  simp only [Builtin.run, hb]
  rfl

theorem Builtin.run_host (host : Host κ σ) {b : Builtin κ} {code : κ} (hb : b.code = .host code)
    (arg : Value κ) (s : Run.State κ σ) :
    b.run host arg s = ((host.call code b.captured arg s.store).1,
      { s with store := (host.call code b.captured arg s.store).2,
               log := .builtinCall b.name arg :: s.log }) := by
  simp only [Builtin.run, hb]
  rfl

theorem callAt_intrinsic (host : Host κ σ) (room : Nat) {b : Builtin κ} {i : Intrinsic}
    (hb : b.code = .intrinsic i) (arg : Value κ) (s : Run.State κ σ) :
    callAt host room (.builtin b) arg s =
      (i.apply arg, { s with log := .builtinCall b.name arg :: s.log }) := by
  rw [callAt_builtin, Builtin.run_intrinsic host hb]

theorem callAt_host (host : Host κ σ) (room : Nat) {b : Builtin κ} {code : κ}
    (hb : b.code = .host code) (arg : Value κ) (s : Run.State κ σ) :
    callAt host room (.builtin b) arg s =
      ((host.call code b.captured arg s.store).1,
        { s with store := (host.call code b.captured arg s.store).2,
                 log := .builtinCall b.name arg :: s.log }) := by
  rw [callAt_builtin, Builtin.run_host host hb]

/-- The stopping function counts its call, raises the flag if it is time, and yields its
argument. -/
theorem Stock.call_stop (cell : Nat) (flag : Flag) (k : Int) (captured : Env Stock)
    (arg : Value Stock) (t : Store Stock.Counts) :
    let counted : Store Stock.Counts := { t with host := t.host.count cell }
    Stock.host.call (.stop cell flag k) captured arg t =
      (.ok arg, if k ≤ counted.host cell then counted.setFlag flag true else counted) := by
  intro counted
  simp only [Stock.host, Stock.call]
  show (if k ≤ (counted.host cell : Int) then _ else _ : Alloc Stock.Counts _) counted = _
  by_cases hk : k ≤ counted.host cell
  · rw [if_pos hk, if_pos hk]
    rfl
  · rw [if_neg hk, if_neg hk]
    rfl

/-! ### New closures and frames, written out -/

/-- The store after `n` identities were taken. -/
def Store.taken (t : Store σ) (n : Nat) : Store σ := { t with next := t.next + n }

namespace Closure

variable {c : Closure κ} {g : String}

theorem callEnv_of_none (hc : c.selfName = none) (arg : Value κ) (t : Store σ) :
    c.callEnv arg t = (.frame t.next c.param arg c.env, t.taken 1) := by
  simp only [callEnv, selfEnv, hc]
  rfl

theorem callEnv_of_some (hc : c.selfName = some g) (arg : Value κ) (t : Store σ) :
    c.callEnv arg t =
      (.frame (t.next + 1) c.param arg (.frame t.next g (.closure c) c.env), t.taken 2) := by
  simp only [callEnv, selfEnv, hc]
  rfl

theorem tie_of_none (hc : c.selfName = none) (x : String) (t : Store σ) :
    c.tie x t = (⟨t.next, c.param, c.body, some x, c.env⟩, t.taken 1) := by
  simp only [tie, selfEnv, hc]
  rfl

theorem tie_of_some (hc : c.selfName = some g) (x : String) (t : Store σ) :
    c.tie x t = (⟨t.next + 1, c.param, c.body, some x, .frame t.next g (.closure c) c.env⟩,
      t.taken 2) := by
  simp only [tie, selfEnv, hc]
  rfl

/-- What a closure finds under a name, its parameter apart. -/
theorem lookup?_selfEnv (c : Closure κ) (t : Store σ) (x : String) :
    (c.selfEnv t).1.lookup? x =
      if c.selfName = some x then some (.closure c) else c.env.lookup? x := by
  unfold selfEnv
  cases c.selfName with
  | none => rfl
  | some g => simp only [Option.some.injEq]; rfl

end Closure

/-- What a `let` binds is the value itself or, if it is recursive and the value a closure, a new
closure. -/
theorem Value.plain_or_closure (rec : Bool) (v : Value κ) :
    (rec = false ∨ ∀ c, v ≠ .closure c) ∨ ∃ c, rec = true ∧ v = .closure c := by
  cases rec with
  | false => exact .inl (.inl rfl)
  | true =>
      cases v with
      | closure c => exact .inr ⟨c, rfl, rfl⟩
      | int n | bool n | str n | builtin n => exact .inl (.inr fun c h => nomatch h)

/-- A plain `let`, or one of a value that is no closure, binds the value itself. -/
theorem Value.bound_plain {rec : Bool} {v : Value κ} (h : rec = false ∨ ∀ c, v ≠ .closure c)
    (x : String) (s : Run.State κ σ) :
    (v.bound rec x : Run κ σ (Value κ)) s = (.ok v, s) := by
  unfold Value.bound
  split
  · rename_i c
    rcases h with h | h
    · cases h
    · exact absurd rfl (h c)
  · rfl

/-- A recursive `let` of a closure binds the closure tied to the name. -/
theorem Value.bound_closure (c : Closure κ) (x : String) (s : Run.State κ σ) :
    ((Value.closure c).bound true x : Run κ σ (Value κ)) s =
      (.ok (.closure (c.tie x s.store).1),
        { s with store := (c.tie x s.store).2, log := .tied x c.param :: s.log }) := rfl

/-! ### Expressions, with a clear flag -/

section

variable {call : Value κ → Value κ → Run κ σ (Value κ)} {env : Env κ} {s s₁ s₂ : Run.State κ σ}

theorem Expr.evalWith_var {x : String} {v : Value κ}
    (hs : s.context.isInterrupted s.store = false) (hx : env.lookup? x = some v) :
    (Expr.var x).evalWith call env s = (.ok v, s) := by
  simp only [Expr.evalWith, hx]
  exact Run.poll_bind _ _ hs

theorem Expr.evalWith_lam (x : String) (ty : Option Ty) (b : Expr)
    (hs : s.context.isInterrupted s.store = false) :
    (Expr.lam x ty b).evalWith call env s =
      (.ok (.closure ⟨s.store.next, x, b, none, env⟩), { s with store := s.store.taken 1 }) := by
  simp only [Expr.evalWith]
  exact Run.poll_bind _ _ hs

/-- An application whose callee is a function is its argument and then the call. -/
theorem Expr.evalWith_app_callee {f : Expr} {u : Value κ}
    (hs : s.context.isInterrupted s.store = false) (hf : f.evalWith call env s = (.ok u, s₁))
    (hu : u.isCallable = true) (a : Expr) :
    (Expr.app f a).evalWith call env s = (a.evalWith call env >>= call u) s₁ := by
  simp only [Expr.evalWith]
  rw [Run.poll_bind _ _ hs, Run.bind_ok hf, if_pos hu]

/-- An application whose callee and argument have values is a call. -/
theorem Expr.evalWith_app {f a : Expr} {u v : Value κ}
    (hs : s.context.isInterrupted s.store = false) (hf : f.evalWith call env s = (.ok u, s₁))
    (hu : u.isCallable = true) (ha : a.evalWith call env s₁ = (.ok v, s₂)) :
    (Expr.app f a).evalWith call env s = call u v s₂ :=
  (Expr.evalWith_app_callee hs hf hu a).trans (Run.bind_ok ha)

/-- A `let` whose value is bound as `w` is its body, with the name in front. -/
theorem Expr.evalWith_letIn {rec : Bool} {x : String} {e b : Expr} {v w : Value κ}
    (hs : s.context.isInterrupted s.store = false) (he : e.evalWith call env s = (.ok v, s₁))
    (hv : (v.bound rec x : Run κ σ (Value κ)) s₁ = (.ok w, s₂)) :
    (Expr.letIn rec x e b).evalWith call env s =
      b.evalWith call (.frame s₂.store.next x w env) { s₂ with store := s₂.store.taken 1 } := by
  simp only [Expr.evalWith]
  rw [Run.poll_bind _ _ hs, Run.bind_ok he, Run.bind_ok hv]
  rfl

end

/-! ### Evaluations that are recorded as a whole -/

namespace Run

/-- What is recorded after a run that is recorded as a whole. -/
def closing : Except (EvalError κ) α → List (Event κ)
  | .ok _ => []
  | .error e => [.failed e]

/-- The end of a run that is recorded as a whole. -/
def concluded (out : Except (EvalError κ) α × State κ σ) : Except (EvalError κ) α × State κ σ :=
  (out.1, { out.2 with log := closing out.1 ++ out.2.log })

theorem events_concluded (out : Except (EvalError κ) α × State κ σ) :
    (concluded out).2.events = out.2.events ++ closing out.1 := by
  rcases out with ⟨_ | a, s⟩ <;> simp [concluded, closing, State.events]

end Run

theorem Expr.evalLogged_eq (host : Host κ σ) (e : Expr) (env : Env κ) (s : Run.State κ σ) :
    e.evalLogged host env s =
      Run.concluded (e.eval host env { s with log := .begun e.kind :: s.log }) := by
  have hbegun : (Run.record (.begun e.kind) : Run κ σ Unit) s =
      (.ok (), { s with log := .begun e.kind :: s.log }) := rfl
  refine (Run.bind_ok hbegun).trans ?_
  rcases e.eval host env { s with log := .begun e.kind :: s.log } with ⟨_ | v, s₁⟩ <;> rfl

/-! ### Changes of the store that leave the flags alone -/

/-- The change leaves every flag as it is. -/
def Alloc.Quiet (x : Alloc σ α) : Prop := ∀ store, (x store).2.raised = store.raised

theorem Env.quiet_extend {env : Env κ} {name : String} {v : Value κ} :
    Alloc.Quiet (σ := σ) (env.extend name v) := fun _ => rfl

theorem Closure.quiet_make {env : Env κ} {param : String} {body : Expr} {self : Option String} :
    Alloc.Quiet (σ := σ) (Closure.make env param body self) := fun _ => rfl

theorem Closure.quiet_selfEnv (c : Closure κ) : Alloc.Quiet (σ := σ) c.selfEnv := by
  intro store
  unfold Closure.selfEnv
  cases c.selfName <;> rfl

theorem Closure.quiet_tie (c : Closure κ) (name : String) : Alloc.Quiet (σ := σ) (c.tie name) :=
  fun store => c.quiet_selfEnv store

theorem Closure.quiet_callEnv (c : Closure κ) (arg : Value κ) :
    Alloc.Quiet (σ := σ) (c.callEnv arg) := fun store => c.quiet_selfEnv store

end EagerLambda
