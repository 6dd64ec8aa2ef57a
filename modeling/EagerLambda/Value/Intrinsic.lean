/-!
# Values — types and intrinsics

The names of the types the language tells apart, and of the functions on strings it provides.
-/

namespace EagerLambda

/-- The types the language tells apart. -/
inductive Tag where
  | int
  | bool
  | string
  | closure
  | builtin
  deriving DecidableEq

/-- The name of a type. -/
def Tag.name : Tag → String
  | .int     => "Int"
  | .bool    => "Bool"
  | .string  => "String"
  | .closure => "Closure"
  | .builtin => "Builtin"

/-- The functions on strings that the language itself provides. -/
inductive Intrinsic where
  | firstChar
  | remainingChars
  | charCode
  | codeChar
  deriving DecidableEq

namespace Intrinsic

/-- Every intrinsic once, in the order in which the prelude binds them. -/
def all : List Intrinsic := [.firstChar, .remainingChars, .charCode, .codeChar]

/-- The name a program uses. -/
def name : Intrinsic → String
  | .firstChar      => "firstChar"
  | .remainingChars => "remainingChars"
  | .charCode       => "charCode"
  | .codeChar       => "codeChar"

/-- The intrinsic with the given name. -/
def ofName? (name : String) : Option Intrinsic := all.find? (·.name == name)

/-- The capitalised name, for constructor notation. -/
def outline : Intrinsic → String
  | .firstChar      => "FirstChar"
  | .remainingChars => "RemainingChars"
  | .charCode       => "CharCode"
  | .codeChar       => "CodeChar"

end Intrinsic

end EagerLambda
