import EagerLambda.Eval.Basic

/-!
# Evaluators

An environment and a context together, to evaluate one expression after the other and to bind names
in between: what the library offers to a program that uses it, under its version.
-/

namespace EagerLambda

/-- The version of the language and its library. -/
def version : String := "0.0.1"

/-- An environment and a context. -/
structure Evaluator (κ : Type) where
  env : Env κ
  context : Context

namespace Evaluator

variable {κ σ : Type}

/-- An evaluator that knows the intrinsics and has the given context. -/
def ofContext (context : Context) : Alloc σ (Evaluator κ) := do
  return { env := ← Env.withPrelude, context }

/-- An evaluator that knows the intrinsics and has a new context with the default limit. -/
def make : Alloc σ (Evaluator κ) := do ofContext (← Context.default)

/-- Bind a name. -/
def define (ev : Evaluator κ) (name : String) (value : Value κ) : Alloc σ (Evaluator κ) := do
  return { ev with env := ← ev.env.extend name value }

/-- Bind a builtin under its own name. -/
def defineBuiltin (ev : Evaluator κ) (b : Builtin κ) : Alloc σ (Evaluator κ) := do
  return { ev with env := ← ev.env.extendBuiltin b }

/-- Evaluate an expression and record it as a whole; the evaluator goes on with the context as the
run has left it. -/
def eval (host : Host κ σ) (ev : Evaluator κ) (e : Expr) (store : Store σ) :
    Except (EvalError κ) (Value κ) × Evaluator κ × Run.State κ σ :=
  let (result, s) := e.evalLogged host ev.env (.start ev.context store)
  (result, { ev with context := s.context }, s)

/-- The evaluator in constructor notation. -/
def outline (ev : Evaluator κ) (store : Store σ) : String :=
  Text.record "Evaluator" [("env", ev.env.outline), ("ctx", ev.context.outline store)]

end Evaluator

end EagerLambda
