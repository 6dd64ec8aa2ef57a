/-!
# JSON — documents

A JSON document as it is spelled: members keep their order and may repeat, and a number remembers
whether it was written as an integer.
-/

namespace EagerLambda

namespace Json

/-- A number.  `0` with a minus sign counts as a decimal, and so does any number written with a
fraction or an exponent. -/
inductive Number where
  | integer (n : Int)
  /-- `digits · 10 ^ exponent`, with its sign. -/
  | decimal (negative : Bool) (digits : Nat) (exponent : Int)
  deriving DecidableEq

end Json

/-- A JSON document. -/
inductive Json where
  | null
  | bool (b : Bool)
  | num (n : Json.Number)
  | str (s : String)
  | arr (items : List Json)
  | obj (members : List (String × Json))

namespace Json

/-- An integer as a document. -/
def ofInt (n : Int) : Json := .num (.integer n)

/-- The truth value a document is. -/
def bool? : Json → Option Bool
  | .bool b => some b
  | _       => none

/-- The integer a document is. -/
def int? : Json → Option Int
  | .num (.integer n) => some n
  | _ => none

/-- The string a document is. -/
def str? : Json → Option String
  | .str s => some s
  | _      => none

end Json

end EagerLambda
