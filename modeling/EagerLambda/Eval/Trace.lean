import EagerLambda.Value.Error

/-!
# Evaluation — the trace

The events an evaluation records, and the line each is written as.
-/

namespace EagerLambda

/-- Something worth telling about an evaluation. -/
inductive Event (κ : Type) where
  /-- An evaluation that is recorded as a whole has begun. -/
  | begun (kind : Kind)
  /-- A closure was entered; `depth` counts this call too. -/
  | closureCall (param : String) (arg : Value κ) (depth : Nat)
  /-- A builtin is about to run. -/
  | builtinCall (name : String) (arg : Value κ)
  /-- A closure was made recursive. -/
  | tied (name param : String)
  /-- A call was refused. -/
  | limitReached (depth limit : Nat)
  /-- The flag was found raised before a node. -/
  | interrupted (kind : Kind)
  /-- An evaluation that is recorded as a whole has failed. -/
  | failed (error : EvalError κ)

namespace Event

variable {κ : Type}

/-- The line an event is written as. -/
def render : Event κ → String
  | .begun kind => "DEBUG span eval_expr kind=" ++ kind.describe
  | .closureCall param arg depth =>
    "TRACE apply closure param=" ++ param ++ " arg=" ++ arg.render ++ " depth=" ++
      Text.decimal depth
  | .builtinCall name arg => "TRACE apply builtin builtin=" ++ name ++ " arg=" ++ arg.render
  | .tied name param => "TRACE bound recursive closure binder=" ++ name ++ " param=" ++ param
  | .limitReached depth limit =>
    "DEBUG call depth limit reached depth=" ++ Text.decimal depth ++ " max=" ++ Text.decimal limit
  | .interrupted kind => "DEBUG evaluation interrupted kind=" ++ kind.describe
  | .failed error => "DEBUG evaluation failed kind=" ++ error.kind ++ " err=" ++ error.message

end Event

end EagerLambda
