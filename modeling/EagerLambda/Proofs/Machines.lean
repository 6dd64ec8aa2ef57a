import EagerLambda.Proofs.Runs

/-!
# Machines — what all evaluators have in common

Evaluation takes the same steps whatever the machine that takes them (`Machine`).  If the steps of
two machines are related one by one, then so are their evaluations; `Machine.Related` says what is
asked of the relation, one thing for each step and one for sequences, and the walk through the
expression is done here once (`Machine.Related.evalWith`, `Machine.Related.callAt`).

Two machines can be related by what one of them does beside evaluating.  A machine can be related to
itself by equality: then evaluation depends on the calls of functions only (`Expr.evalWith_congr`).
And a relation may ignore the second machine, which makes it a law of the first.  One such law holds
of all runs: they add to what was recorded before and do not look at it (`Run.Adds`).
-/

namespace EagerLambda

variable {κ σ α β : Type}

/-! ### Related machines -/

section

variable {m n : Type → Type} [Monad m] [Machine κ m] [Monad n] [Machine κ n]

/-- What is asked of a relation between what two machines do. -/
structure Machine.Related (R : (α : Type) → m α → n α → Prop) : Prop where
  pure : ∀ {α : Type} (a : α), R _ (Pure.pure a) (Pure.pure a)
  bind : ∀ {α β : Type} {x : m α} {y : n α} {f : α → m β} {g : α → n β}, R _ x y →
    (∀ a, R _ (f a) (g a)) → R _ (x >>= f) (y >>= g)
  poll : ∀ kind, R _ (Machine.poll kind) (Machine.poll kind)
  fail : ∀ {α : Type} (e : EvalError κ), R _ (Machine.fail e : m α) (Machine.fail e)
  record : ∀ event : Event κ, R _ (Machine.record event) (Machine.record event)
  operate : ∀ op (l r : Value κ), R _ (Machine.operate op l r) (Machine.operate op l r)
  close : ∀ (env : Env κ) param body,
    R _ (Machine.close env param body) (Machine.close env param body)
  tie : ∀ (c : Closure κ) name, R _ (Machine.tie c name) (Machine.tie c name)
  extend : ∀ env name (v : Value κ), R _ (Machine.extend env name v) (Machine.extend env name v)
  enter : ∀ c (arg : Value κ) (f : Env κ → m (Value κ)) (g : Env κ → n (Value κ)),
    (∀ env, R _ (f env) (g env)) → R _ (Machine.enter c arg f) (Machine.enter c arg g)
  overflow : R _ (Machine.overflow : m (Value κ)) Machine.overflow

namespace Machine.Related

variable {R : (α : Type) → m α → n α → Prop}

theorem bound (hR : Related R) (rec : Bool) (x : String) (v : Value κ) :
    R _ (v.bound rec x) (v.bound rec x) := by
  unfold Value.bound
  split
  · exact hR.bind (hR.record _) fun _ => hR.bind (hR.tie _ x) fun _ => hR.pure _
  · exact hR.pure v

/-- **Expressions.**  Only functions are ever called. -/
theorem evalWith (hR : Related R) (call : Value κ → Value κ → m (Value κ))
    (call' : Value κ → Value κ → n (Value κ))
    (hcall : ∀ u v, u.isCallable = true → R _ (call u v) (call' u v)) (e : Expr) :
    ∀ env, R _ (e.evalWith call env) (e.evalWith call' env) := by
  induction e with
  | int k | bool b | str s => exact fun env => hR.bind (hR.poll _) fun _ => hR.pure _
  | var x =>
      intro env
      refine hR.bind (hR.poll _) fun _ => ?_
      cases env.lookup? x with
      | none => exact hR.fail _
      | some v => exact hR.pure v
  | lam x ty b ih =>
      exact fun env => hR.bind (hR.poll _) fun _ => hR.bind (hR.close env x b) fun _ => hR.pure _
  | app f a ihf iha =>
      intro env
      refine hR.bind (hR.poll _) fun _ => hR.bind (ihf env) fun u => ?_
      by_cases hu : u.isCallable = true
      · rw [if_pos hu, if_pos hu]
        exact hR.bind (iha env) fun v => hcall u v hu
      · rw [if_neg hu, if_neg hu]
        exact hR.fail _
  | cond e yes no ihe ihy ihn =>
      intro env
      refine hR.bind (hR.poll _) fun _ => hR.bind (ihe env) fun u => ?_
      cases u with
      | bool b =>
          cases b with
          | true => exact ihy env
          | false => exact ihn env
      | int k | str k | closure k | builtin k => exact hR.fail _
  | binary l op r ihl ihr =>
      exact fun env => hR.bind (hR.poll _) fun _ => hR.bind (ihl env) fun u =>
        hR.bind (ihr env) fun v => hR.operate op u v
  | letIn rec x e b ihe ihb =>
      exact fun env => hR.bind (hR.poll _) fun _ => hR.bind (ihe env) fun v =>
        hR.bind (hR.bound rec x v) fun w => hR.bind (hR.extend env x w) ihb

variable (builtin : Builtin κ → Value κ → m (Value κ))
  (builtin' : Builtin κ → Value κ → n (Value κ))

theorem callWith (hR : Related R) (hbuiltin : ∀ b v, R _ (builtin b v) (builtin' b v))
    (evalBody : Expr → Env κ → m (Value κ)) (evalBody' : Expr → Env κ → n (Value κ))
    (hbody : ∀ e env, R _ (evalBody e env) (evalBody' e env)) (u v : Value κ) :
    R _ (Machine.callWith builtin evalBody u v) (Machine.callWith builtin' evalBody' u v) := by
  cases u with
  | int k | bool k | str k => exact hR.fail _
  | closure c => exact hR.enter c v _ _ (hbody c.body)
  | builtin b => exact hbuiltin b v

/-- **Calls**, if builtins are related.  The induction is on the room. -/
theorem callAt (hR : Related R) (hbuiltin : ∀ b v, R _ (builtin b v) (builtin' b v)) (room : Nat) :
    ∀ u v, R _ (Machine.callAt builtin room u v) (Machine.callAt builtin' room u v) := by
  induction room with
  | zero => exact hR.callWith _ _ hbuiltin _ _ fun _ _ => hR.overflow
  | succ room ih =>
      exact hR.callWith _ _ hbuiltin _ _ (hR.evalWith _ _ fun u v _ => ih u v)

end Machine.Related

end

/-- Evaluation depends on the calls of functions only. -/
theorem Expr.evalWith_congr {call call' : Value κ → Value κ → Run κ σ (Value κ)}
    (h : ∀ u v, u.isCallable = true → call u v = call' u v) (e : Expr) (env : Env κ) :
    e.evalWith call env = e.evalWith call' env := by
  have heq : Machine.Related (m := Run κ σ) (n := Run κ σ) fun _ => Eq :=
    { pure := fun _ => rfl
      bind := fun hx hf => by rw [hx, funext hf]
      poll := fun _ => rfl
      fail := fun _ => rfl
      record := fun _ => rfl
      operate := fun _ _ _ => rfl
      close := fun _ _ _ => rfl
      tie := fun _ _ => rfl
      extend := fun _ _ _ => rfl
      enter := fun _ _ _ _ hf => by rw [funext hf]
      overflow := rfl }
  exact heq.evalWith call call' h e env

/-! ### Nothing recorded is taken back -/

/-- The run adds to what was recorded before, and what it adds does not depend on it. -/
def Run.Adds (x : Run κ σ α) : Prop := ∀ context store, ∃ r context' store' events, ∀ log,
  x ⟨context, store, log⟩ = (r, ⟨context', store', events ++ log⟩)

namespace Run.Adds

/-- What was recorded is still there at the end. -/
theorem suffix {x : Run κ σ α} (hx : x.Adds) (s : State κ σ) : s.log <:+ (x s).2.log := by
  obtain ⟨r, context', store', events, hrun⟩ := hx s.context s.store
  rw [show x s = _ from hrun s.log]
  exact List.suffix_append events s.log

theorem ofExcept (r : Except (EvalError κ) α) : Adds (Run.ofExcept r : Run κ σ α) :=
  fun context store => ⟨r, context, store, [], fun _ => rfl⟩

theorem pure (a : α) : Adds (Pure.pure a : Run κ σ α) := ofExcept (.ok a)

theorem fail (e : EvalError κ) : Adds (Run.fail e : Run κ σ α) := ofExcept (.error e)

theorem alloc (x : Alloc σ α) : Adds (Run.alloc x : Run κ σ α) :=
  fun context store => ⟨.ok (x store).1, context, (x store).2, [], fun _ => rfl⟩

theorem record (event : Event κ) : Adds (Run.record event : Run κ σ Unit) :=
  fun context store => ⟨.ok (), context, store, [event], fun _ => rfl⟩

theorem overflow : Adds (Run.overflow : Run κ σ α) :=
  fun context store => ⟨.error (.stackOverflow context.depth context.limit), context, store,
    [.limitReached context.depth context.limit], fun _ => rfl⟩

theorem poll (kind : Kind) : Adds (Run.poll kind : Run κ σ Unit) := by
  intro context store
  cases hflag : context.isInterrupted store with
  | true =>
      exact ⟨.error .interrupted, context, store, [.interrupted kind], fun _ => if_pos hflag⟩
  | false => exact ⟨.ok (), context, store, [], fun _ => poll_clear kind hflag⟩

theorem bind {x : Run κ σ α} {f : α → Run κ σ β} (hx : x.Adds) (hf : ∀ a, (f a).Adds) :
    (x >>= f).Adds := by
  intro context store
  obtain ⟨r, context₁, store₁, events, hrun⟩ := hx context store
  cases r with
  | error e => exact ⟨.error e, context₁, store₁, events, fun log => bind_error (hrun log)⟩
  | ok a =>
      obtain ⟨r, context₂, store₂, events', hrun'⟩ := hf a context₁ store₁
      refine ⟨r, context₂, store₂, events' ++ events, fun log => ?_⟩
      rw [bind_ok (hrun log), hrun', List.append_assoc]

theorem enter : Adds (Run.enter : Run κ σ Nat) := by
  intro context store
  by_cases hroom : context.depth < context.limit
  · exact ⟨.ok (context.depth + 1), { context with depth := context.depth + 1 }, store, [],
      fun _ => enter_below hroom⟩
  · exact ⟨.error (.stackOverflow context.depth context.limit), context, store,
      [.limitReached context.depth context.limit], fun _ => enter_full (Nat.le_of_not_lt hroom)⟩

theorem leaving {x : Run κ σ α} (hx : x.Adds) : (Run.leaving x).Adds := by
  intro context store
  obtain ⟨r, context₁, store₁, events, hrun⟩ := hx context store
  refine ⟨r, context₁.leave, store₁, events, fun log => ?_⟩
  simp only [Run.leaving, hrun]

/-- All that a machine does is of this kind. -/
theorem related : Machine.Related (m := Run κ σ) (n := Run κ σ) fun _ x _ => x.Adds where
  pure := pure
  bind := bind
  poll := poll
  fail := fail
  record := record
  operate _ _ _ := ofExcept _
  close _ _ _ := alloc _
  tie _ _ := alloc _
  extend _ _ _ := alloc _
  enter _ _ _ _ hf := enter.bind fun _ => leaving ((record _).bind fun _ => (alloc _).bind hf)
  overflow := overflow

end Run.Adds

theorem Builtin.run_adds (host : Host κ σ) (b : Builtin κ) (v : Value κ) : (b.run host v).Adds := by
  refine (Run.Adds.record _).bind fun _ => ?_
  cases b.code with
  | intrinsic i => exact .ofExcept _
  | host code => exact (Run.Adds.alloc _).bind fun _ => .ofExcept _

theorem callAt_adds (host : Host κ σ) (room : Nat) (u v : Value κ) : (callAt host room u v).Adds :=
  Run.Adds.related.callAt _ (Builtin.run host) (Builtin.run_adds host) room u v

/-- **Evaluations** only add to what was recorded before. -/
theorem Expr.evalWith_adds {call : Value κ → Value κ → Run κ σ (Value κ)}
    (hcall : ∀ u v, (call u v).Adds) (e : Expr) (env : Env κ) : (e.evalWith call env).Adds :=
  Run.Adds.related.evalWith call call (fun u v _ => hcall u v) e env

theorem Expr.eval_adds (host : Host κ σ) (e : Expr) (env : Env κ) : (e.eval host env).Adds :=
  fun context => e.evalWith_adds (callAt_adds host context.room) env context

end EagerLambda
