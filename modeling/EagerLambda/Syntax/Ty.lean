import EagerLambda.Text.Record

/-!
# Syntax — annotations

The types a parameter may be annotated with.  Evaluation does not look at them.
-/

namespace EagerLambda

/-- A type, as annotations write it. -/
inductive Ty where
  | int
  | bool
  | string
  | arrow (domain codomain : Ty)
  deriving DecidableEq

namespace Ty

/-- Whether the type is an arrow. -/
def isArrow : Ty → Bool
  | .arrow _ _ => true
  | _          => false

/-- The surface text.  Arrows associate to the right, so only an arrow on the left of another one
stands in parentheses. -/
def surface : Ty → String
  | .int    => "Int"
  | .bool   => "Bool"
  | .string => "String"
  | .arrow domain codomain =>
    (if domain.isArrow then "(" ++ domain.surface ++ ")" else domain.surface) ++ " -> "
      ++ codomain.surface

/-- The type in constructor notation. -/
def outline : Ty → String
  | .int    => "Int"
  | .bool   => "Bool"
  | .string => "String"
  | .arrow domain codomain => Text.application "Arrow" [domain.outline, codomain.outline]

end Ty

end EagerLambda
