/-!
# Syntax — operators

The nine binary operators, with the names and symbols they are written by and how tightly each of
them binds.
-/

namespace EagerLambda

/-- A binary operator. -/
inductive Operator where
  | add
  | subtract
  | multiply
  | divide
  | mod
  | higher
  | lower
  | equality
  | concat
  deriving DecidableEq

namespace Operator

/-- Every operator once, in the order of their declaration. -/
def all : List Operator :=
  [.add, .subtract, .multiply, .divide, .mod, .higher, .lower, .equality, .concat]

/-- The symbol between the operands. -/
def symbol : Operator → String
  | .add      => "+"
  | .subtract => "-"
  | .multiply => "*"
  | .divide   => "/"
  | .mod      => "%"
  | .higher   => ">"
  | .lower    => "<"
  | .equality => "=="
  | .concat   => "#"

/-- How tightly the operator binds: multiplication before addition before comparison before
equality. -/
def precedence : Operator → Nat
  | .equality => 1
  | .higher | .lower => 2
  | .add | .subtract | .concat => 3
  | .multiply | .divide | .mod => 4

/-- The name in lower case, by which documents refer to the operator. -/
def name : Operator → String
  | .add      => "add"
  | .subtract => "subtract"
  | .multiply => "multiply"
  | .divide   => "divide"
  | .mod      => "mod"
  | .higher   => "higher"
  | .lower    => "lower"
  | .equality => "equality"
  | .concat   => "concat"

/-- The operator with the given name. -/
def ofName? (name : String) : Option Operator := all.find? (·.name == name)

/-- The capitalised name, for constructor notation. -/
def outline : Operator → String
  | .add      => "Add"
  | .subtract => "Subtract"
  | .multiply => "Multiply"
  | .divide   => "Divide"
  | .mod      => "Mod"
  | .higher   => "Higher"
  | .lower    => "Lower"
  | .equality => "Equality"
  | .concat   => "Concat"

end Operator

end EagerLambda
