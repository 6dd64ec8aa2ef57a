import EagerLambda.Eval.Intrinsic
import EagerLambda.Eval.Operation
import EagerLambda.Eval.Run

/-!
# Evaluation

Call by value, from left to right: the callee before the argument, the left operand before the
right one, and of a conditional only the branch that is taken.  Before every node the flag is looked
at.

What evaluation does along the way is up to a machine (`Machine`), and runs are one.
`Expr.evalWith` walks an expression and leaves calls to its parameter.  `Machine.callWith` makes a
call and leaves builtins and the bodies of closures to its own.  `Machine.callAt` ties the two
together: each nested call uses up one level of the room the context has left, and so evaluation
ends.  `Expr.eval` is evaluation by runs, with the functions of a host.
-/

namespace EagerLambda

/-- What evaluation is made of, with results in `m`. -/
class Machine (κ : outParam Type) (m : Type → Type) where
  /-- Look at the flag, before a node of the given kind. -/
  poll : Kind → m Unit
  /-- End in an error. -/
  fail {α : Type} : EvalError κ → m α
  /-- Record an event. -/
  record : Event κ → m Unit
  /-- Apply an operator. -/
  operate : Operator → Value κ → Value κ → m (Value κ)
  /-- A new closure, for a lambda. -/
  close : Env κ → String → Expr → m (Closure κ)
  /-- A new closure that calls itself by the name. -/
  tie : Closure κ → String → m (Closure κ)
  /-- Bind a name. -/
  extend : Env κ → String → Value κ → m (Env κ)
  /-- Call a closure with an argument, and go on in the environment in which its body runs. -/
  enter : Closure κ → Value κ → (Env κ → m (Value κ)) → m (Value κ)
  /-- Refuse a call. -/
  overflow : m (Value κ)

variable {κ σ : Type}

section

variable {m : Type → Type} [Monad m] [Machine κ m]

/-- What a `let` binds for a value.  A recursive one makes a closure recursive; anything else is
bound as it is. -/
@[specialize] def Value.bound (recursive : Bool) (name : String) (value : Value κ) : m (Value κ) :=
  match recursive, value with
  | true, .closure c => do
    Machine.record (.tied name c.param)
    let tied ← Machine.tie c name
    pure (.closure tied)
  | _, value => pure value

/-- Evaluate an expression, with `call` to apply one value to another. -/
@[specialize] def Expr.evalWith (call : Value κ → Value κ → m (Value κ)) :
    Expr → Env κ → m (Value κ)
  | .var name, env => do
    Machine.poll .var
    match env.lookup? name with
    | some value => pure value
    | none       => Machine.fail (.unboundVariable name)
  | .lam param _ body, env => do
    Machine.poll .lam
    let closure ← Machine.close env param body
    pure (.closure closure)
  | .app func arg, env => do
    Machine.poll .app
    let f ← func.evalWith call env
    if f.isCallable then
      let v ← arg.evalWith call env
      call f v
    else
      Machine.fail (.notAFunction f)
  | .cond test yes no, env => do
    Machine.poll .cond
    match ← test.evalWith call env with
    | .bool true  => yes.evalWith call env
    | .bool false => no.evalWith call env
    | value       => Machine.fail (.nonBooleanCondition value)
  | .binary left op right, env => do
    Machine.poll .binary
    let l ← left.evalWith call env
    let r ← right.evalWith call env
    Machine.operate op l r
  | .letIn recursive name value body, env => do
    Machine.poll .letIn
    let v ← value.evalWith call env
    let v ← v.bound recursive name
    let env ← Machine.extend env name v
    body.evalWith call env
  | .int n, _ => do
    Machine.poll .int
    pure (.int n)
  | .bool b, _ => do
    Machine.poll .bool
    pure (.bool b)
  | .str s, _ => do
    Machine.poll .str
    pure (.str s)

namespace Machine

/-- Apply one value to another, with `builtin` to run a builtin and `evalBody` to evaluate the body
of a closure. -/
@[specialize] def callWith (builtin : Builtin κ → Value κ → m (Value κ))
    (evalBody : Expr → Env κ → m (Value κ)) : Value κ → Value κ → m (Value κ)
  | .closure c, arg => enter c arg (evalBody c.body)
  | .builtin b, arg => builtin b arg
  | value, _ => fail (.notAFunction value)

/-- Apply one value to another, with room for `room` nested calls.  Without room, a context that has
none either refuses to enter a closure, so the body is never asked for. -/
@[specialize] def callAt (builtin : Builtin κ → Value κ → m (Value κ)) :
    Nat → Value κ → Value κ → m (Value κ)
  | 0 => callWith builtin fun _ _ => overflow
  | room + 1 => callWith builtin (Expr.evalWith (callAt builtin room))

end Machine

end

/-- Run a closure, with `evalBody` to go on in the environment of the call.  The call counts until
it ends. -/
def Closure.runWith (c : Closure κ) (arg : Value κ) (evalBody : Env κ → Run κ σ (Value κ)) :
    Run κ σ (Value κ) := do
  let depth ← Run.enter
  Run.leaving do
    Run.record (.closureCall c.param arg depth)
    let env ← Run.alloc (c.callEnv arg)
    evalBody env

instance : Machine κ (Run κ σ) where
  poll := Run.poll
  fail := Run.fail
  record := Run.record
  operate op left right := Run.ofExcept (op.apply left right)
  close env param body := Run.alloc (Closure.make env param body none)
  tie c name := Run.alloc (c.tie name)
  extend env name value := Run.alloc (env.extend name value)
  enter := Closure.runWith
  overflow := Run.overflow

/-- Run a builtin. -/
def Builtin.run (host : Host κ σ) (b : Builtin κ) (arg : Value κ) : Run κ σ (Value κ) := do
  Run.record (.builtinCall b.name arg)
  match b.code with
  | .intrinsic i => Run.ofExcept (i.apply arg)
  | .host code =>
    let result ← Run.alloc (host.call code b.captured arg)
    Run.ofExcept result

/-- Apply one value to another, with `evalBody` to evaluate the body of a closure. -/
def Value.callWith (host : Host κ σ) (evalBody : Expr → Env κ → Run κ σ (Value κ))
    (f arg : Value κ) : Run κ σ (Value κ) :=
  Machine.callWith (Builtin.run host) evalBody f arg

/-- Apply one value to another, with room for `room` nested calls. -/
def callAt (host : Host κ σ) (room : Nat) (f arg : Value κ) : Run κ σ (Value κ) :=
  Machine.callAt (Builtin.run host) room f arg

/-- Apply one value to another. -/
def Value.call (host : Host κ σ) (f arg : Value κ) : Run κ σ (Value κ) := fun s =>
  callAt host s.context.room f arg s

/-- Evaluate an expression. -/
def Expr.eval (host : Host κ σ) (e : Expr) (env : Env κ) : Run κ σ (Value κ) := fun s =>
  e.evalWith (callAt host s.context.room) env s

/-- Evaluate an expression and record the evaluation as a whole: that it has begun, and why it has
failed if it has. -/
def Expr.evalLogged (host : Host κ σ) (e : Expr) (env : Env κ) : Run κ σ (Value κ) := do
  Run.record (.begun e.kind)
  fun s =>
    match e.eval host env s with
    | (.ok value, s) => (.ok value, s)
    | (.error error, s) => (.error error, { s with log := .failed error :: s.log })

/-- Evaluate an expression in a new context with the default limit, and record it as a whole. -/
def Expr.evalAlone (host : Host κ σ) (e : Expr) (env : Env κ) (store : Store σ) :
    Except (EvalError κ) (Value κ) × Run.State κ σ :=
  let (context, store) := Context.default store
  e.evalLogged host env (.start context store)

end EagerLambda
