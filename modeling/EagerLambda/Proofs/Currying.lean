import EagerLambda.Proofs.Causes
import EagerLambda.Proofs.Coincidence
import EagerLambda.Proofs.Knots

/-!
# Currying — functions of several arguments

A function takes one argument, so a function of several is one that yields the next.  Its
application to all of them is an application inside an application, the first argument innermost,
while its lambdas stand the other way round, the last parameter innermost.  What comes of it is
nevertheless simple (`curried_application`): the arguments are evaluated in the environment of the
application, from left to right and all at its depth, and then the body, one level deeper, in that
environment with the parameters in front of it, in order.

`Run.supply` does the first part and makes the chain of frames.  The closures between the first
argument and the last are never seen: each is made by the call before it, waits for one argument and
is called once.  The induction is on the arguments, with the application so far as the callee of the
next (`evalWith_apps_waiting`); a call that hands over an argument is over before the next argument
is looked at (`callAt_waiting`).

The arguments could as well be evaluated each on its own (`supply_like`).  That is not the same run,
since other identities are taken, but its outcome is alike.
-/

namespace EagerLambda

variable {κ σ α β : Type}

/-- `\x₁ => … \xₙ => body`. -/
def Expr.lams (params : List String) (body : Expr) : Expr :=
  params.foldr (fun x e => .lam x none e) body

namespace Run

/-- Record the call that hands over `v` as `x`, and put it in front of `chain`. -/
def handOver (x : String) (v : Value κ) (chain : Env κ) : Run κ σ (Env κ) := fun s =>
  (do Run.record (.closureCall x v (s.context.depth + 1))
      Run.alloc (chain.extend x v)) s

/-- Evaluate the arguments in `env`, from left to right, and put their values in front of `chain`,
each under its name.  For every argument there is a closure that waits for it, which takes an
identity, and a call that hands it over. -/
def supply (host : Host κ σ) (env : Env κ) : List (String × Expr) → Env κ → Run κ σ (Env κ)
  | [], chain => pure chain
  | (x, a) :: more, chain => do
    let _ ← Run.alloc Store.fresh
    let v ← a.eval host env
    let chain ← handOver x v chain
    supply host env more chain

/-- Run `x` one level deeper. -/
def inCall (x : Run κ σ α) : Run κ σ α := do
  let _ ← Run.enter
  Run.leaving x

/-- The state when `v` was handed over as `x`. -/
def State.handed (s : State κ σ) (x : String) (v : Value κ) : State κ σ :=
  ⟨s.context, s.store.taken 1, .closureCall x v (s.context.depth + 1) :: s.log⟩

theorem handOver_eq (x : String) (v : Value κ) (chain : Env κ) (s : State κ σ) :
    handOver x v chain s = (.ok (.frame s.store.next x v chain), s.handed x v) := rfl

/-- The first argument, and then the others. -/
theorem supply_cons_bind (host : Host κ σ) (env : Env κ) (x : String) (a : Expr)
    (more : List (String × Expr)) (chain : Env κ) (f : Env κ → Run κ σ β) (s : State κ σ) :
    (supply host env ((x, a) :: more) chain >>= f) s =
      (do let v ← a.eval host env
          let chain ← handOver x v chain
          let chain ← supply host env more chain
          f chain) { s with store := s.store.taken 1 } := by
  simp only [supply, bind_assoc]
  rfl

/-- Below the limit, the run starts one level deeper and its end is one level higher. -/
theorem inCall_eq (x : Run κ σ α) {s : State κ σ} (h : s.context.depth < s.context.limit) :
    inCall x s = ((x s.deeper).1, (x s.deeper).2.leave) :=
  bind_ok (enter_below h)

end Run

/-! ### One call after the other -/

/-- Evaluation leaves the context as it was, and the flag, if there are no functions of the host. -/
theorem Expr.exists_eval (host : Host κ σ) {env : Env κ} (henv : env.Within fun _ => False)
    (e : Expr) (ctx : Context) (t : Store σ) (log : List (Event κ)) :
    ∃ r t' log', e.eval host env ⟨ctx, t, log⟩ = (r, ⟨ctx, t', log'⟩) ∧
      ctx.isInterrupted t' = ctx.isInterrupted t ∧ ∀ v, r = .ok v → v.Within fun _ => False := by
  obtain ⟨r, events, t', hrun, hheld⟩ := e.exists_records host env henv ctx t
  have hend := (truth_lawful host).eval (e := e) henv ⟨ctx, t, log⟩
  rw [show e.eval host env ⟨ctx, t, log⟩ = _ from hrun log] at hend
  exact ⟨r, t', _, hrun log, hend.after.1, hheld⟩

/-- An application to several arguments fails if its callee does. -/
theorem Expr.evalWith_apps_error {call : Value κ → Value κ → Run κ σ (Value κ)} {env : Env κ}
    {s s₁ : Run.State κ σ} (hs : s.context.isInterrupted s.store = false) {e : EvalError κ}
    (args : List Expr) : ∀ {f : Expr}, f.evalWith call env s = (.error e, s₁) →
      (f.apps args).evalWith call env s = (.error e, s₁) := by
  induction args with
  | nil => exact fun hf => hf
  | cons a args ih =>
      intro f hf
      refine ih (f := .app f a) ?_
      simp only [Expr.evalWith]
      rw [Run.poll_bind _ _ hs, Run.bind_error hf]

section

variable (host : Host κ σ) (chain : Env κ) {s : Run.State κ σ}

/-- **A call that hands over an argument** but not the last one ends at once, in the closure that
waits for the next. -/
theorem callAt_waiting (hroom : s.context.depth < s.context.limit)
    (hs : s.context.isInterrupted s.store = false) (id : Nat) (x y : String) (b : Expr)
    (v : Value κ) :
    callAt host s.context.room (.closure ⟨id, x, .lam y none b, none, chain⟩) v s =
      (.ok (.closure ⟨s.store.next + 1, y, b, none, .frame s.store.next x v chain⟩),
        { s.handed x v with store := s.store.taken 2 }) := by
  obtain ⟨room, hsucc⟩ := Nat.exists_eq_add_one.mpr (Nat.sub_pos_of_lt hroom)
  rw [Context.room, hsucc, callAt_closure host room _ v hroom, Expr.evalWith_lam]
  · rfl
  · exact hs

/-- **The last call** evaluates the body one level deeper. -/
theorem callAt_last (hroom : s.context.depth < s.context.limit) (id : Nat) (x : String) (b : Expr)
    (v : Value κ) :
    callAt host s.context.room (.closure ⟨id, x, b, none, chain⟩) v s =
      Run.inCall (b.eval host (.frame s.store.next x v chain)) (s.handed x v) := by
  obtain ⟨room, hsucc⟩ := Nat.exists_eq_add_one.mpr (Nat.sub_pos_of_lt hroom)
  have hdeeper : (s.handed x v).deeper.context.room = room := by
    show s.context.limit - (s.context.depth + 1) = room
    omega
  rw [Run.inCall_eq (s := s.handed x v) _ hroom, Expr.eval, hdeeper, Context.room, hsucc,
    callAt_closure host room _ v hroom]
  rfl

end

section

variable {host : Host κ σ} {env : Env κ} {ctx : Context} {t : Store σ} {log : List (Event κ)}

/-- **An application to arguments**, if its callee is a closure that waits for the first of them:
they are evaluated and bound one after the other, and then the body is evaluated. -/
theorem evalWith_apps_waiting (henv : env.Within fun _ => False) (hroom : ctx.depth < ctx.limit)
    (hclear : ctx.isInterrupted t = false) (b : Expr) (more : List (String × Expr)) :
    ∀ {f a : Expr} {id : Nat} {x : String} {chain : Env κ} {t₁ : Store σ} {log₁ : List (Event κ)},
      ctx.isInterrupted t₁ = false →
      f.evalWith (callAt host ctx.room) env ⟨ctx, t, log⟩ =
        (.ok (.closure ⟨id, x, .lams (more.map Prod.fst) b, none, chain⟩), ⟨ctx, t₁, log₁⟩) →
      (f.apps (a :: more.map Prod.snd)).evalWith (callAt host ctx.room) env ⟨ctx, t, log⟩ =
        (do let v ← a.eval host env
            let chain ← Run.handOver x v chain
            let chain ← Run.supply host env more chain
            Run.inCall (b.eval host chain)) ⟨ctx, t₁, log₁⟩ := by
  -- the callee of the first application is `f`; that of the second is the first application
  induction more with
  | nil =>
      intro f a id x chain t₁ log₁ hclear₁ hf
      refine (Expr.evalWith_app_callee hclear hf rfl a).trans ?_
      obtain ⟨r, t₂, log₂, ha, -⟩ := a.exists_eval host henv _ t₁ log₁
      cases r with
      | error e => exact (Run.bind_error ha).trans (Run.bind_error ha).symm
      | ok v =>
          rw [Run.bind_ok ha]
          exact (Run.bind_ok ha).trans
            (callAt_last host chain (s := ⟨ctx, t₂, log₂⟩) hroom id x b v)
  | cons next more ih =>
      intro f a id x chain t₁ log₁ hclear₁ hf
      have happ := Expr.evalWith_app_callee hclear hf rfl a
      obtain ⟨r, t₂, log₂, ha, hflag₂, -⟩ := a.exists_eval host henv _ t₁ log₁
      cases r with
      | error e =>
          rw [Run.bind_error ha]
          exact Expr.evalWith_apps_error (f := .app f a) hclear _ (happ.trans (Run.bind_error ha))
      | ok v =>
          have hclear₂ : ctx.isInterrupted (t₂.taken 2) = false := hflag₂.trans hclear₁
          have hcall := callAt_waiting host chain (s := ⟨ctx, t₂, log₂⟩) hroom hclear₂ id x next.1
            (.lams (more.map Prod.fst) b) v
          rw [Run.bind_ok ha, Run.bind_ok (Run.handOver_eq x v chain _), Run.supply_cons_bind]
          exact ih hclear₂ (happ.trans ((Run.bind_ok ha).trans hcall))

/-- **An application at the limit** gets as far as its first argument. -/
theorem evalWith_apps_full (henv : env.Within fun _ => False) (hfull : ctx.limit ≤ ctx.depth)
    (hclear : ctx.isInterrupted t = false) (x : String) (a : Expr) (params : List String)
    (args : List Expr) (b : Expr) :
    ((Expr.lams (x :: params) b).apps (a :: args)).evalWith (callAt host ctx.room) env
        ⟨ctx, t, log⟩ =
      (do let _ ← Run.alloc Store.fresh
          let _ ← a.eval host env
          Run.overflow) ⟨ctx, t, log⟩ := by
  have hlam : (Expr.lams (x :: params) b).evalWith (callAt host ctx.room) env ⟨ctx, t, log⟩ = _ :=
    Expr.evalWith_lam x none (.lams params b) hclear
  have happ := Expr.evalWith_app_callee hclear hlam rfl a
  obtain ⟨r, events, t₁, hrun, -⟩ := a.exists_records host env henv ctx (t.taken 1)
  have ha : a.eval host env ⟨ctx, t.taken 1, log⟩ = (r, ⟨ctx, t₁, events.reverse ++ log⟩) :=
    hrun log
  show _ = (a.eval host env >>= fun _ => Run.overflow) ⟨ctx, t.taken 1, log⟩
  cases r with
  | error e =>
      rw [Run.bind_error ha]
      exact Expr.evalWith_apps_error (f := .app _ a) hclear args (happ.trans (Run.bind_error ha))
  | ok v =>
      rw [Run.bind_ok ha]
      refine Expr.evalWith_apps_error (f := .app _ a) hclear args
        (happ.trans ((Run.bind_ok ha).trans ?_))
      exact callAt_closure_full host _ _ v hfull

end

/-! ### Each argument on its own -/

/-- The values of the arguments under their names, each of them evaluated in `env` from the state
`s`, as if it were the only one; or the first error. -/
def Run.State.arguments (s : Run.State κ σ) (host : Host κ σ) (env : Env κ)
    (bindings : List (String × Expr)) : Except (EvalError κ) (List (String × Value κ)) :=
  bindings.mapM fun binding => (binding.2.eval host env s).1.map (binding.1, ·)

theorem Run.State.arguments_cons_bind (s : Run.State κ σ) (host : Host κ σ) (env : Env κ)
    (x : String) (a : Expr) (more : List (String × Expr))
    (f : List (String × Value κ) → Except (EvalError κ) α) :
    (s.arguments host env ((x, a) :: more) >>= f) = (do
      let v ← (a.eval host env s).1
      let vs ← s.arguments host env more
      f ((x, v) :: vs)) := by
  rw [arguments, List.mapM_cons]
  cases (a.eval host env s).1 with
  | error e => rfl
  | ok v =>
      show (s.arguments host env more >>= fun vs => Except.ok ((x, v) :: vs)) >>= f = _
      cases s.arguments host env more with
      | error e => rfl
      | ok vs => rfl

section

variable {V : Value κ → Value κ → Prop} {host : Host κ σ} {env : Env κ} {s : Run.State κ σ}

/-- Evaluations in environments that agree end alike, whichever identities are taken and whatever
was recorded before. -/
theorem Value.Lexical.eval_like (hV : Value.Lexical V) {env' : Env κ} {e : Expr}
    (h : env.AgreeOn V e.free env') (henv : env.Within fun _ => False)
    (henv' : env'.Within fun _ => False) {s' : Run.State κ σ} (hctx : s.context = s'.context)
    (hflag : s.context.isInterrupted s.store = s'.context.isInterrupted s'.store) :
    Outcome.Like V V (e.eval host env s).1 (e.eval host env' s').1 := by
  obtain ⟨ctx, t, log⟩ := s
  obtain ⟨_, t', log'⟩ := s'
  obtain rfl : ctx = _ := hctx
  obtain ⟨r, events, t₁, hrun, -⟩ := e.exists_records host env henv ctx t
  obtain ⟨r', events', t₁', hrun', -⟩ := e.exists_records host env' henv' ctx t'
  have heval : (e.eval host env ⟨ctx, t, log⟩).1 = r := congrArg Prod.fst (hrun log)
  have heval' : (e.eval host env' ⟨ctx, t', log'⟩).1 = r' := congrArg Prod.fst (hrun' log')
  rw [heval, heval']
  exact (hV.records h hflag hrun hrun').1

/-- **Arguments do not depend on each other**: evaluated one after the other or each on its own, and
bound in front of chains that agree, they lead to outcomes that are alike. -/
theorem supply_like (hV : Value.Lexical V) (henv : env.Within fun _ => False)
    (hroom : s.context.depth < s.context.limit) (b : Expr) (bindings : List (String × Expr)) :
    ∀ (chain chain' : Env κ) (t t' : Store σ) (log : List (Event κ)),
      s.context.isInterrupted t = s.context.isInterrupted s.store →
      chain.Within (fun _ => False) → chain'.Within (fun _ => False) →
      (∀ names, chain.AgreeOn V names chain') →
      Outcome.Like V V
        ((do let chain ← Run.supply host env bindings chain
             Run.inCall (b.eval host chain)) ⟨s.context, t, log⟩).1
        (do let vs ← s.arguments host env bindings
            (b.eval host (chain'.extendAll vs t').1 s.deeper).1) := by
  induction bindings with
  | nil =>
      intro chain chain' t t' log hflag hchain hchain' hagree
      show Outcome.Like V V (Run.inCall (b.eval host chain) ⟨s.context, t, log⟩).1
        (b.eval host chain' s.deeper).1
      rw [Run.inCall_eq (s := ⟨s.context, t, log⟩) _ hroom]
      exact hV.eval_like (hagree _) hchain hchain' rfl hflag
  | cons binding bindings ih =>
      intro chain chain' t t' log hflag hchain hchain' hagree
      obtain ⟨x, a⟩ := binding
      obtain ⟨r, t₁, log₁, ha, hflag₁, hheld⟩ :=
        a.exists_eval host henv _ (t.taken 1) log
      obtain ⟨r', t₁', log₁', ha', -, hheld'⟩ :=
        a.exists_eval host henv _ s.store s.log
      have hlike : Outcome.Like V V (a.eval host env ⟨s.context, t.taken 1, log⟩).1
          (a.eval host env s).1 :=
        hV.eval_like (fun y _ => hV.lookup_self henv y) henv henv rfl hflag
      have ha' : a.eval host env s = _ := ha'
      rw [ha, ha'] at hlike
      rw [Run.supply_cons_bind, Run.State.arguments_cons_bind, ha']
      cases hlike with
      | error he =>
          rw [Run.bind_error ha]
          exact .error he
      | @ok v v' hv =>
          rw [Run.bind_ok ha, Run.bind_ok (Run.handOver_eq x v chain _)]
          exact ih _ (.frame t'.next x v' chain') _ (t'.taken 1) _ (hflag₁.trans hflag)
            ⟨hheld v rfl, hchain⟩ ⟨hheld' v' rfl, hchain'⟩ fun names => .frame (hagree _) hv _ _

/-- At the limit, the outcome is that of the first argument, if it fails. -/
theorem full_like (hV : Value.Lexical V) (henv : env.Within fun _ => False) (a : Expr) :
    Outcome.Like V V
      ((do let _ ← Run.alloc Store.fresh
           let _ ← a.eval host env
           Run.overflow : Run κ σ (Value κ)) s).1
      (do let _ ← (a.eval host env s).1
          .error (.stackOverflow s.context.depth s.context.limit)) := by
  obtain ⟨r, events, t₁, hrun, -⟩ := a.exists_records host env henv s.context (s.store.taken 1)
  have ha : a.eval host env ⟨s.context, s.store.taken 1, s.log⟩ =
    (r, ⟨s.context, t₁, events.reverse ++ s.log⟩) := hrun s.log
  have hlike : Outcome.Like V V (a.eval host env ⟨s.context, s.store.taken 1, s.log⟩).1
      (a.eval host env s).1 :=
    hV.eval_like (fun y _ => hV.lookup_self henv y) henv henv rfl rfl
  rw [ha] at hlike
  show Outcome.Like V V ((a.eval host env >>= fun _ => Run.overflow)
    ⟨s.context, s.store.taken 1, s.log⟩).1 _
  generalize (a.eval host env s).1 = r' at hlike
  cases hlike with
  | error he =>
      rw [Run.bind_error ha]
      exact .error he
  | ok =>
      rw [Run.bind_ok ha]
      exact .error (.stackOverflow _ _)

end

/-! ### The law -/

/-- **Curried application.**  Let the environment hold no functions of the host, and let the flag be
down.  A function of at least one parameter, some of which may have the same name, is applied to as
many arguments.  Below the limit, the arguments are evaluated in the environment of the application
from left to right, at its depth, and the first that fails ends the whole; if none does, the body is
evaluated one level deeper, in that environment extended by the parameters in order.  The outcome is
the one that the arguments and the body have when each is evaluated on its own.  At the limit, the
first argument is evaluated, and then the call is refused. -/
theorem curried_application (host : Host κ σ) {env : Env κ} (henv : env.Within fun _ => False)
    (x : String) (a : Expr) (more : List (String × Expr)) (b : Expr) {s : Run.State κ σ}
    (hclear : s.context.isInterrupted s.store = false) :
    let bindings := (x, a) :: more
    let out := ((Expr.lams (bindings.map Prod.fst) b).apps (bindings.map Prod.snd)).eval host env s
    (s.context.depth < s.context.limit →
      out = (do
        let chain ← Run.supply host env bindings env
        Run.inCall (b.eval host chain)) s ∧
      Outcome.Like Value.Alike Value.Alike out.1 (do
        let vs ← s.arguments host env bindings
        (b.eval host (env.extendAll vs s.store).1 s.deeper).1)) ∧
    (s.context.limit ≤ s.context.depth →
      out = (do
        let _ ← Run.alloc Store.fresh
        let _ ← a.eval host env
        Run.overflow) s ∧
      Outcome.Like Value.Alike Value.Alike out.1 (do
        let _ ← (a.eval host env s).1
        .error (.stackOverflow s.context.depth s.context.limit))) := by
  intro bindings out
  have hV : Value.Lexical (Value.Alike (κ := κ)) := Value.alike_lexical
  constructor
  · intro hroom
    have hclear₁ : s.context.isInterrupted (s.store.taken 1) = false := hclear
    have hout : out = (do
        let chain ← Run.supply host env bindings env
        Run.inCall (b.eval host chain)) s := by
      rw [Run.supply_cons_bind]
      exact evalWith_apps_waiting henv hroom hclear b more hclear₁
        (Expr.evalWith_lam x none _ hclear)
    refine ⟨hout, ?_⟩
    rw [hout]
    exact supply_like hV henv hroom b bindings env env s.store s.store s.log rfl henv henv
      fun _ y _ => hV.lookup_self henv y
  · intro hfull
    have hout : out = (do
        let _ ← Run.alloc Store.fresh
        let _ ← a.eval host env
        Run.overflow) s := evalWith_apps_full henv hfull hclear x a _ _ b
    refine ⟨hout, ?_⟩
    rw [hout]
    exact full_like hV henv a

/-- `(\x => \y => \x => if y then x else y) 1 x ((\z => z) 2)`, where `x` is `true` outside: the
second argument does not see the first, the third makes a call of its own, and the last parameter
hides the first.  One level of calls is enough for all of it; without any, the first call is
refused. -/
theorem curried_application_hiding :
    let env : Env Stock := .frame 0 "x" (.bool true) .empty
    let more : List (String × Expr) :=
      [("y", .var "x"), ("x", .app (.lam "z" none (.var "z")) (.int 2))]
    let b : Expr := .cond (.var "y") (.var "x") (.var "y")
    let out (limit : Nat) :=
      ((Expr.lams ("x" :: more.map Prod.fst) b).apps (.int 1 :: more.map Prod.snd)).eval Stock.host
        env (.start ⟨limit, 0, 0⟩ ⟨1, fun _ => false, fun _ => 0⟩)
    (out 1).1.toOption.map Value.render = some "2" ∧ (out 0).1 = .error (.stackOverflow 0 0) := by
  intro env more b out
  have hheld : env.Within fun _ => False := ⟨trivial, trivial⟩
  have hlaw (limit : Nat) := curried_application Stock.host hheld "x" (.int 1) more b
    (s := .start ⟨limit, 0, 0⟩ ⟨1, fun _ => false, fun _ => 0⟩) rfl
  obtain ⟨hbelow, -⟩ := (hlaw 1).1 (by decide)
  obtain ⟨hfull, -⟩ := (hlaw 0).2 (by decide)
  constructor
  · rw [show out 1 = _ from hbelow]
    decide +kernel
  · rw [show out 0 = _ from hfull]
    rfl

end EagerLambda
