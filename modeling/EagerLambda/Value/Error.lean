import EagerLambda.Value.Basic

/-!
# Errors

Why an evaluation can fail, how the causes are told apart, and how each is worded.
-/

namespace EagerLambda

/-- The cause of a failed evaluation.  Functions of the host may complain of their arguments as the
intrinsics do, in their own names. -/
inductive EvalError (κ : Type) where
  | unboundVariable (name : String)
  | notAFunction (value : Value κ)
  | nonBooleanCondition (value : Value κ)
  | incompatibleOperands (op : Operator) (left right : Value κ)
  | divisionByZero (op : Operator)
  | integerOverflow (op : Operator)
  | invalidArgument (intrinsic expected : String) (found : Value κ)
  | emptyString (intrinsic : String)
  | invalidCharCode (code : Int64)
  | stackOverflow (depth limit : Nat)
  | interrupted

namespace EvalError

variable {κ : Type}

/-- A short name for the cause. -/
def kind : EvalError κ → String
  | .unboundVariable _          => "unbound-variable"
  | .notAFunction _             => "not-a-function"
  | .nonBooleanCondition _      => "non-boolean-condition"
  | .incompatibleOperands _ _ _ => "incompatible-operands"
  | .divisionByZero _           => "division-by-zero"
  | .integerOverflow _          => "integer-overflow"
  | .invalidArgument _ _ _      => "invalid-argument"
  | .emptyString _              => "empty-string"
  | .invalidCharCode _          => "invalid-char-code"
  | .stackOverflow _ _          => "stack-overflow"
  | .interrupted                => "interrupted"

/-- A value as messages mention it: its text between backquotes, and its type. -/
def mention (v : Value κ) : String := "`" ++ v.render ++ "` (" ++ v.tag.name ++ ")"

/-- What the user is told. -/
def message : EvalError κ → String
  | .unboundVariable name => "unbound variable `" ++ name ++ "`"
  | .notAFunction value => "not a function: " ++ mention value
  | .nonBooleanCondition value => "non-boolean condition: " ++ mention value
  | .incompatibleOperands op left right =>
    "incompatible operands for `" ++ op.symbol ++ "`: " ++ mention left ++ " and " ++ mention right
  | .divisionByZero op => "division by zero in `" ++ op.symbol ++ "`"
  | .integerOverflow op => "integer overflow in `" ++ op.symbol ++ "`"
  | .invalidArgument intrinsic expected found =>
    "`" ++ intrinsic ++ "` expects " ++ expected ++ ", found " ++ mention found
  | .emptyString intrinsic => "`" ++ intrinsic ++ "` applied to an empty string"
  | .invalidCharCode code => "invalid character code " ++ Text.decimal code.toInt
  | .stackOverflow depth limit =>
    "stack overflow: call depth " ++ Text.decimal depth ++ " exceeds maximum " ++ Text.decimal limit
  | .interrupted => "evaluation interrupted"

/-- The error in constructor notation. -/
def outline : EvalError κ → String
  | .unboundVariable name => Text.record "UnboundVariable" [("name", Text.quote name)]
  | .notAFunction value => Text.record "NotAFunction" [("value", value.render)]
  | .nonBooleanCondition value => Text.record "NonBooleanCondition" [("value", value.render)]
  | .incompatibleOperands op left right =>
    Text.record "IncompatibleOperands" [("op", op.outline), ("left", left.render),
      ("right", right.render)]
  | .divisionByZero op => Text.record "DivisionByZero" [("op", op.outline)]
  | .integerOverflow op => Text.record "IntegerOverflow" [("op", op.outline)]
  | .invalidArgument intrinsic expected found =>
    Text.record "InvalidArgument" [("intrinsic", Text.quote intrinsic),
      ("expected", Text.quote expected), ("found", found.render)]
  | .emptyString intrinsic => Text.record "EmptyString" [("intrinsic", Text.quote intrinsic)]
  | .invalidCharCode code => Text.record "InvalidCharCode" [("code", Text.decimal code.toInt)]
  | .stackOverflow depth limit =>
    Text.record "StackOverflow" [("depth", Text.decimal depth), ("max", Text.decimal limit)]
  | .interrupted => "Interrupted"

end EvalError

end EagerLambda
