import EagerLambda.Proofs.Scope
import EagerLambda.Proofs.Simulation

/-!
# Recursion — self names stand for recursive environments

The textbook meaning of `let rec f = \x => b` is a cyclic environment: a frame that binds `f` to the
closure of `\x => b` over the chain that starts at this very frame.  `Expr.evalKnot` is the
evaluator with such frames (`Env.knot`): a lookup closes the cycle (`Env.resolve?`), and a call
binds the parameter and nothing else.  The evaluator proper has no cycles.  Its closures carry a
self name, under which every call binds them anew.

Where every `let rec` binds a lambda, the two cannot be told apart (`eval_agrees_evalKnot`).  They
are related by `Value.Unrolls`: a closure with a self name corresponds to a closure over a recursive
frame, and the frame that a call puts in front of what was captured corresponds to the recursive
frame itself (`Env.Unrolls.knot`).
-/

namespace EagerLambda

variable {κ σ : Type}

/-! ### Recursive environments -/

namespace Env

/-- A recursive frame in front of `rest`: `f` is bound to the closure of `\x => b` over the chain
that starts at this very frame.  A frame cannot hold the chain it starts, so it holds the closure
without an environment, and `resolve?` puts the chain in. -/
def knot (id : Nat) (f x : String) (b : Expr) (rest : Env κ) : Env κ :=
  .frame id f (.closure ⟨id, x, b, some f, .empty⟩) rest

/-- Bind `f` in a new recursive frame. -/
def extendKnot (env : Env κ) (f x : String) (b : Expr) : Alloc σ (Env κ) := do
  return .knot (← Store.fresh) f x b env

end Env

/-- What a frame that starts the chain `chain` binds, if it holds the value.  No closure has a self
name here but that of a recursive frame, and it is closed over the chain. -/
def Value.over (chain : Env κ) : Value κ → Value κ
  | .closure ⟨id, x, b, some _, _⟩ => .closure ⟨id, x, b, none, chain⟩
  | value => value

/-- The value of the most recent binding of `name`, where frames can be recursive. -/
def Env.resolve? : Env κ → String → Option (Value κ)
  | .empty, _ => none
  | .frame id bound value rest, name =>
    if bound = name then some (value.over (.frame id bound value rest)) else rest.resolve? name

/-- **The cycle**: the closure that a recursive frame binds is closed over that frame. -/
theorem Env.resolve?_knot (id : Nat) (f x : String) (b : Expr) (rest : Env κ) (y : String) :
    (Env.knot id f x b rest).resolve? y =
      if f = y then some (.closure ⟨id, x, b, none, .knot id f x b rest⟩) else rest.resolve? y :=
  rfl

/-- Evaluate an expression with recursive environments.  A `let rec` of a lambda makes a recursive
frame; every other `let` binds the value as it is. -/
def Expr.evalKnotWith (call : Value κ → Value κ → Run κ σ (Value κ)) :
    Expr → Env κ → Run κ σ (Value κ)
  | .var name, env => do
    Run.poll .var
    match env.resolve? name with
    | some value => pure value
    | none       => Run.fail (.unboundVariable name)
  | .lam param _ body, env => do
    Run.poll .lam
    let closure ← Run.alloc (Closure.make env param body none)
    pure (.closure closure)
  | .app func arg, env => do
    Run.poll .app
    let f ← func.evalKnotWith call env
    if f.isCallable then
      let v ← arg.evalKnotWith call env
      call f v
    else
      Run.fail (.notAFunction f)
  | .cond test yes no, env => do
    Run.poll .cond
    match ← test.evalKnotWith call env with
    | .bool true  => yes.evalKnotWith call env
    | .bool false => no.evalKnotWith call env
    | value       => Run.fail (.nonBooleanCondition value)
  | .binary left op right, env => do
    Run.poll .binary
    let l ← left.evalKnotWith call env
    let r ← right.evalKnotWith call env
    Run.ofExcept (op.apply l r)
  | .letIn true name (.lam param _ b) body, env => do
    Run.poll .letIn
    Run.poll .lam
    Run.record (.tied name param)
    let env ← Run.alloc (env.extendKnot name param b)
    body.evalKnotWith call env
  | .letIn _ name value body, env => do
    Run.poll .letIn
    let v ← value.evalKnotWith call env
    let env ← Run.alloc (env.extend name v)
    body.evalKnotWith call env
  | .int n, _ => do
    Run.poll .int
    pure (.int n)
  | .bool b, _ => do
    Run.poll .bool
    pure (.bool b)
  | .str s, _ => do
    Run.poll .str
    pure (.str s)

/-- Apply one value to another.  The call of a closure binds the parameter and nothing else. -/
def Value.callKnotWith (host : Host κ σ) (evalBody : Expr → Env κ → Run κ σ (Value κ)) :
    Value κ → Value κ → Run κ σ (Value κ)
  | .closure c, arg => do
    let depth ← Run.enter
    Run.leaving do
      Run.record (.closureCall c.param arg depth)
      let env ← Run.alloc (c.env.extend c.param arg)
      evalBody c.body env
  | .builtin b, arg => b.run host arg
  | value, _ => Run.fail (.notAFunction value)

/-- Apply one value to another, with room for `room` nested calls. -/
def callKnotAt (host : Host κ σ) : Nat → Value κ → Value κ → Run κ σ (Value κ)
  | 0 => Value.callKnotWith host fun _ _ => Run.overflow
  | room + 1 => Value.callKnotWith host (Expr.evalKnotWith (callKnotAt host room))

/-- Evaluate an expression with recursive environments. -/
def Expr.evalKnot (host : Host κ σ) (e : Expr) (env : Env κ) : Run κ σ (Value κ) := fun s =>
  e.evalKnotWith (callKnotAt host s.context.room) env s

/-- Every `let rec` in the expression binds a lambda. -/
def Expr.recLams : Expr → Bool
  | .lam _ _ b => b.recLams
  | .app f a => f.recLams && a.recLams
  | .cond e yes no => e.recLams && yes.recLams && no.recLams
  | .binary l _ r => l.recLams && r.recLams
  | .letIn rec _ e b => (!rec || e.isLam) && e.recLams && b.recLams
  | .var _ | .int _ | .bool _ | .str _ => true

/-! ### Self names, unrolled -/

/-- Equal values, if they are no functions; the same intrinsic; or closures of the same code.  A
closure without a self name has captured an environment that binds the same.  One with a self name
stands for a closure over a recursive frame. -/
inductive Value.Unrolls : Value κ → Value κ → Prop where
  | base {v : Value κ} (h : v.isCallable = false) : Unrolls v v
  | intrinsic {b b' : Builtin κ} {i : Intrinsic} (hname : b.name = b'.name)
      (hb : b.code = .intrinsic i) (hb' : b'.code = .intrinsic i) :
      Unrolls (.builtin b) (.builtin b')
  | plain {id id' : Nat} {x : String} {b : Expr} {env env' : Env κ} (hb : b.recLams = true)
      (henv : ∀ y, Option.Rel Unrolls (env.lookup? y) (env'.resolve? y)) :
      Unrolls (.closure ⟨id, x, b, none, env⟩) (.closure ⟨id', x, b, none, env'⟩)
  | knot {id id' : Nat} {f x : String} {b : Expr} {env rest : Env κ} (hb : b.recLams = true)
      (henv : ∀ y, Option.Rel Unrolls (env.lookup? y) (rest.resolve? y)) :
      Unrolls (.closure ⟨id, x, b, some f, env⟩)
        (.closure ⟨id', x, b, none, .knot id' f x b rest⟩)

/-- Each name is unbound in both environments, or bound in both to values that correspond. -/
def Env.Unrolls (env env' : Env κ) : Prop :=
  ∀ x, Option.Rel Value.Unrolls (env.lookup? x) (env'.resolve? x)

theorem Value.unrolls_faithful : Value.Faithful (Value.Unrolls (κ := κ)) where
  base := .base
  eq h hv := by
    cases h with
    | base => rfl
    | intrinsic | plain | knot => cases hv
  tag h := by cases h <;> rfl
  render h := by
    cases h with
    | intrinsic hname => exact congrArg ("<builtin " ++ · ++ ">") hname
    | base | plain | knot => rfl

/-- A frame binds the value it holds, unless it is a recursive one. -/
theorem Value.Unrolls.over_eq {v w : Value κ} (h : v.Unrolls w) (chain : Env κ) :
    w.over chain = w := by
  cases h with
  | base hv =>
      cases v with
      | int n | bool n | str n => rfl
      | closure c | builtin b => cases hv
  | intrinsic | plain | knot => rfl

namespace Env.Unrolls

variable {env env' : Env κ}

theorem frame (h : env.Unrolls env') {v w : Value κ} (hv : v.Unrolls w) (id id' : Nat)
    (x : String) : Env.Unrolls (.frame id x v env) (.frame id' x w env') := by
  intro y
  simp only [Env.lookup?, Env.resolve?]
  by_cases hxy : x = y
  · rw [if_pos hxy, if_pos hxy, hv.over_eq]
    exact .some hv
  · rw [if_neg hxy, if_neg hxy]
    exact h y

/-- **A self name in front stands for a recursive frame.** -/
theorem knot (h : env.Unrolls env') {b : Expr} (hb : b.recLams = true) (id idc id' : Nat)
    (f x : String) :
    Env.Unrolls (.frame id f (.closure ⟨idc, x, b, some f, env⟩) env) (.knot id' f x b env') := by
  intro y
  rw [Env.resolve?_knot, Env.lookup?]
  by_cases hfy : f = y
  · rw [if_pos hfy, if_pos hfy]
    exact .some (.knot hb h)
  · rw [if_neg hfy, if_neg hfy]
    exact h y

/-- Without closures there is nothing to unroll. -/
theorem self : ∀ {env : Env κ}, env.Every (fun _ => False) (fun _ => False) → env.Unrolls env
  | .empty, _, _ => .none
  | .frame id x v rest, h, y => by
      have hv : v.Unrolls v := by
        cases v with
        | int n | bool n | str n => exact .base rfl
        | closure c => exact (Closure.every_iff.mp h.1).1.elim
        | builtin b =>
            cases hcode : b.code with
            | intrinsic i => exact .intrinsic rfl hcode hcode
            | host code => exact (Builtin.Every.of_host h.1 hcode).1.elim
      exact (self h.2).frame hv id id x y

end Env.Unrolls

/-! ### The two evaluators, side by side -/

/-- A `let rec` of a lambda, in one piece: the closure is made, tied and bound in one change of the
store. -/
theorem Expr.evalWith_letRec {call : Value κ → Value κ → Run κ σ (Value κ)} {env : Env κ}
    {f x : String} {ty : Option Ty} {b e : Expr} :
    (Expr.letIn true f (.lam x ty b) e).evalWith call env = (do
      Run.poll .letIn
      Run.poll .lam
      Run.record (.tied f x)
      let env ← Run.alloc fun store =>
        let tied : Closure κ := ⟨store.next + 1, x, b, some f, env⟩
        (.frame (store.next + 2) f (.closure tied) env, store.taken 3)
      e.evalWith call env) := by
  funext s
  by_cases hraised : s.context.isInterrupted s.store = true
  · -- nothing is reached but the first look at the flag
    exact (Run.poll_bind_raised _ _ hraised).trans (Run.poll_bind_raised _ _ hraised).symm
  · -- the second look finds the flag as the first did
    have hclear : s.context.isInterrupted s.store = false := Bool.eq_false_iff.mpr hraised
    rw [Expr.evalWith_letIn hclear (Expr.evalWith_lam x ty b hclear) (Value.bound_closure _ f _)]
    exact ((Run.poll_bind _ _ hclear).trans (Run.poll_bind _ _ hclear)).symm

theorem evalWith_unrolls {call call' : Value κ → Value κ → Run κ σ (Value κ)}
    (hcall : ∀ u u' v v', u.Unrolls u' → v.Unrolls v' →
      Run.Sim Value.Unrolls Value.Unrolls (call u v) (call' u' v')) (e : Expr) :
    e.recLams = true → ∀ env env', env.Unrolls env' →
      Run.Sim Value.Unrolls Value.Unrolls (e.evalWith call env) (e.evalKnotWith call' env') := by
  have hlike := (Value.unrolls_faithful (κ := κ)).likeness
  induction e with
  | int n | bool b | str s =>
      exact fun _ env env' _ => (Run.SimBy.poll hlike _).bind fun _ _ _ => .pure (.base rfl)
  | var x =>
      intro _ env env' henv
      exact .var hlike (henv x) fun _ => rfl
  | lam x ty b ih =>
      intro hrec env env' henv
      exact .lam hlike fun _ _ => .plain hrec henv
  | app f a ihf iha =>
      intro hrec env env' henv
      obtain ⟨hf, ha⟩ := Bool.and_eq_true_iff.mp hrec
      exact .app hlike hcall (ihf hf env env' henv) (iha ha env env' henv)
  | cond e yes no ihe ihy ihn =>
      intro hrec env env' henv
      obtain ⟨hrec, hn⟩ := Bool.and_eq_true_iff.mp hrec
      obtain ⟨he, hy⟩ := Bool.and_eq_true_iff.mp hrec
      exact .cond hlike (ihe he env env' henv) (ihy hy env env' henv)
        (ihn hn env env' henv)
  | binary l op r ihl ihr =>
      intro hrec env env' henv
      obtain ⟨hl, hr⟩ := Bool.and_eq_true_iff.mp hrec
      exact .binary hlike op (ihl hl env env' henv) (ihr hr env env' henv)
  | letIn rec x e b ihe ihb =>
      intro hrec env env' henv
      obtain ⟨hrec, hb⟩ := Bool.and_eq_true_iff.mp hrec
      obtain ⟨hlam, he⟩ := Bool.and_eq_true_iff.mp hrec
      cases rec with
      | false =>
          refine (Run.SimBy.poll hlike _).bind fun _ _ _ => ?_
          refine (ihe he env env' henv).bind fun v w hv s t hst => ?_
          rw [Run.bind_ok (Value.bound_plain (.inl rfl) x s)]
          exact Run.SimBy.bind (.alloc Env.quiet_extend Env.quiet_extend
            fun _ _ => henv.frame hv _ _ x) (fun env₁ env₁' => ihb hb env₁ env₁') s t hst
      | true =>
          cases e with
          | lam p ty fb =>
              have hfb : fb.recLams = true := he
              rw [Expr.evalWith_letRec]
              refine (Run.SimBy.poll hlike _).bind fun _ _ _ => ?_
              refine (Run.SimBy.poll hlike _).bind fun _ _ _ => ?_
              refine (Run.SimBy.record (.tied x p)).bind fun _ _ _ => ?_
              refine .bind (.alloc (fun _ => rfl) (fun _ => rfl) fun _ _ => ?_)
                fun env₁ env₁' => ihb hb env₁ env₁'
              exact henv.knot hfb _ _ _ x p
          | _ => cases hlam

theorem callWith_unrolls (host : Host κ σ) {evalBody evalBody' : Expr → Env κ → Run κ σ (Value κ)}
    (hbody : ∀ e, e.recLams = true → ∀ env env', env.Unrolls env' →
      Run.Sim Value.Unrolls Value.Unrolls (evalBody e env) (evalBody' e env'))
    {u u' v v' : Value κ} (hu : u.Unrolls u') (hv : v.Unrolls v') :
    Run.Sim Value.Unrolls Value.Unrolls (u.callWith host evalBody v)
      (u'.callKnotWith host evalBody' v') := by
  have hlike := (Value.unrolls_faithful (κ := κ)).likeness
  have hevent (x : String) (depth : Nat) :
      (Event.closureCall x v depth).Like Value.Unrolls (.closureCall x v' depth) :=
    .closureCall x depth hv
  cases hu with
  | base hu =>
      cases u with
      | int n | bool n | str n => exact .fail (.notAFunction (.base hu))
      | closure c | builtin b => cases hu
  | intrinsic hname hb hb' => exact .intrinsic hlike host host hname hb hb' hv
  | plain hb henv =>
      refine .entered hlike (hevent _) (Closure.quiet_callEnv _ v) Env.quiet_extend
        (fun store store' => ?_) (hbody _ hb)
      rw [Closure.callEnv_of_none rfl]
      exact Env.Unrolls.frame henv hv _ _ _
  | knot hb henv =>
      -- two frames on one side, one on the other: the recursive frame is there already
      refine .entered hlike (hevent _) (Closure.quiet_callEnv _ v) Env.quiet_extend
        (fun store store' => ?_) (hbody _ hb)
      rw [Closure.callEnv_of_some rfl]
      exact (Env.Unrolls.knot henv hb _ _ _ _ _).frame hv _ _ _

theorem callAt_unrolls (host : Host κ σ) (room : Nat) :
    ∀ u u' v v', u.Unrolls u' → v.Unrolls v' →
      Run.Sim Value.Unrolls Value.Unrolls (callAt host room u v) (callKnotAt host room u' v') := by
  induction room with
  | zero => exact fun u u' v v' => callWith_unrolls host fun _ _ _ _ _ =>
      .overflow Value.unrolls_faithful.likeness
  | succ room ih => exact fun u u' v v' => callWith_unrolls host (evalWith_unrolls ih)

theorem eval_unrolls (host : Host κ σ) {e : Expr} (he : e.recLams = true) {env env' : Env κ}
    (h : env.Unrolls env') :
    Run.Sim Value.Unrolls Value.Unrolls (e.eval host env) (e.evalKnot host env') := by
  intro s t hst
  rw [Expr.eval, Expr.evalKnot, hst.room]
  exact evalWith_unrolls (callAt_unrolls host t.context.room) e he env env' h s t hst

/-- **Self names stand for recursive environments.**  Take an expression in which every `let rec`
binds a lambda, and an environment that holds nothing but words, truth values, strings and
intrinsics.  Evaluating it and evaluating it with recursive environments give corresponding
outcomes, at the same depth, and write the same lines. -/
theorem eval_agrees_evalKnot (host : Host κ σ) {e : Expr} (he : e.recLams = true) {env : Env κ}
    (henv : env.Every (fun _ => False) fun _ => False) (context : Context) (store : Store σ) :
    Run.Agree Value.Unrolls (e.eval host env (.start context store))
      (e.evalKnot host env (.start context store)) :=
  (eval_unrolls host he (.self henv)).agree Value.unrolls_faithful rfl rfl rfl

/-- `let rec f = \n => \m => if n == 0 then m else f (n - 1) (m + n) in f 2 0`: the inner lambda
captures the self name. -/
def sumTwo : Expr :=
  .letIn true "f"
    (.lam "n" none (.lam "m" none (.cond (.binary (.var "n") .equality (.int 0)) (.var "m")
      (.app (.app (.var "f") (.binary (.var "n") .subtract (.int 1)))
        (.binary (.var "m") .add (.var "n"))))))
    (.app (.app (.var "f") (.int 2)) (.int 0))

/-- A state with the flag down, for at most `limit` calls. -/
def below (limit : Nat) : Run.State Stock Stock.Counts := .start ⟨limit, 0, 0⟩ (.initial fun _ => 0)

/-- With recursive environments too the sum is found, and two levels are not enough for it.  The
intrinsic that goes by the same name is shadowed. -/
theorem eval_agrees_evalKnot_sumTwo :
    let env : Env Stock := .frame 1 "f" (.builtin ⟨0, "f", .intrinsic .codeChar, .empty⟩) .empty
    ((sumTwo.eval Stock.host env (below 3)).1.toOption.map Value.render = some "3" ∧
      Run.Agree Value.Unrolls (sumTwo.eval Stock.host env (below 3))
        (sumTwo.evalKnot Stock.host env (below 3))) ∧
    ((sumTwo.eval Stock.host env (below 2)).1.isOk = false ∧
      Run.Agree Value.Unrolls (sumTwo.eval Stock.host env (below 2))
        (sumTwo.evalKnot Stock.host env (below 2))) := by
  intro env
  have hrec : sumTwo.recLams = true := rfl
  have henv : env.Every (fun _ => False) fun _ => False := ⟨trivial, trivial⟩
  refine ⟨⟨by decide +kernel, ?_⟩, by decide +kernel, ?_⟩
  · exact eval_agrees_evalKnot Stock.host hrec henv ⟨3, 0, 0⟩ (.initial fun _ => 0)
  · exact eval_agrees_evalKnot Stock.host hrec henv ⟨2, 0, 0⟩ (.initial fun _ => 0)

end EagerLambda
