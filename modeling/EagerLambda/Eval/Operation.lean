import EagerLambda.Word
import EagerLambda.Value.Error

/-!
# Evaluation — operators

What the operators do to two values.  Each accepts certain pairs of types and refuses the others:
arithmetic and order take two words, equality two words, two truth values or two strings, and
concatenation two strings.  Closures and builtins are never compared by an operator.
-/

namespace EagerLambda.Operator

variable {κ : Type}

/-- An arithmetic operator on two words; `f` fails when its result is no word. -/
def arithmetic (op : Operator) (f : Int64 → Int64 → Option Int64) :
    Value κ → Value κ → Except (EvalError κ) (Value κ)
  | .int a, .int b =>
    match f a b with
    | some n => .ok (.int n)
    | none   => .error (.integerOverflow op)
  | left, right => .error (.incompatibleOperands op left right)

/-- An arithmetic operator that has no result for a zero on the right. -/
def division (op : Operator) (f : Int64 → Int64 → Option Int64) :
    Value κ → Value κ → Except (EvalError κ) (Value κ)
  | .int a, .int b =>
    if b = 0 then .error (.divisionByZero op) else op.arithmetic f (.int a) (.int b)
  | left, right => .error (.incompatibleOperands op left right)

/-- An order on two words. -/
def comparison (op : Operator) (f : Int64 → Int64 → Bool) :
    Value κ → Value κ → Except (EvalError κ) (Value κ)
  | .int a, .int b => .ok (.bool (f a b))
  | left, right => .error (.incompatibleOperands op left right)

/-- The operator applied to two values. -/
def apply : Operator → Value κ → Value κ → Except (EvalError κ) (Value κ)
  | .add      => arithmetic .add Word.add?
  | .subtract => arithmetic .subtract Word.sub?
  | .multiply => arithmetic .multiply Word.mul?
  | .divide   => division .divide Word.div?
  | .mod      => division .mod Word.rem?
  | .higher   => comparison .higher fun a b => b < a
  | .lower    => comparison .lower fun a b => a < b
  | .equality => fun
    | .int a, .int b => .ok (.bool (a == b))
    | .bool a, .bool b => .ok (.bool (a == b))
    | .str s, .str t => .ok (.bool (s == t))
    | left, right => .error (.incompatibleOperands .equality left right)
  | .concat => fun
    | .str s, .str t => .ok (.str (s ++ t))
    | left, right => .error (.incompatibleOperands .concat left right)

end EagerLambda.Operator
