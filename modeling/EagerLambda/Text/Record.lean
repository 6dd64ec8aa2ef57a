/-!
# Text — constructor notation

Data written as a constructor applied to its contents: `Name { field: contents, … }` when the
contents are named, `Name(contents, …)` when they are not, and `[item, …]` for a list.  Integers are
written in decimal, with a minus sign in front of the negative ones and no leading zero but in `0`
itself.
-/

namespace EagerLambda.Text

/-- The items, divided by commas. -/
def commas (items : List String) : String := ", ".intercalate items

/-- `[item, …]`. -/
def brackets (items : List String) : String := "[" ++ commas items ++ "]"

/-- `Name(contents, …)`. -/
def application (name : String) (contents : List String) : String :=
  name ++ "(" ++ commas contents ++ ")"

/-- `Name { field: contents, … }`. -/
def record (name : String) (fields : List (String × String)) : String :=
  name ++ " \x7b " ++
    commas (fields.map fun (field, contents) => field ++ ": " ++ contents) ++ " \x7d"

/-- An optional item: `None`, or `Some(item)`. -/
def optional : Option String → String
  | none      => "None"
  | some item => application "Some" [item]

/-- A truth value. -/
def truth (b : Bool) : String := if b then "true" else "false"

/-- The decimal numeral of `n`. -/
def decimal : Int → String
  | .ofNat n   => String.ofList (Nat.toDigits 10 n)
  | .negSucc n => String.ofList ('-' :: Nat.toDigits 10 (n + 1))

end EagerLambda.Text
