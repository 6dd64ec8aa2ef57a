import EagerLambda.Json.Basic
import EagerLambda.Json.Magnitude

/-!
# JSON — reading numbers

A number is an optional minus sign, an integer without leading zeros, an optional fraction and an
optional exponent.  Numbers that are not finite in the 64-bit binary format are refused, whether or
not anything depends on their value.
-/

namespace EagerLambda.Json.Number

/-- A leading minus sign, and the rest. -/
def sign : List Char → Bool × List Char
  | '-' :: cs => (true, cs)
  | cs        => (false, cs)

/-- The digits in front, of which there is at least one, and the rest. -/
def digits? (cs : List Char) : Option (List Char × List Char) :=
  match cs.takeWhile Char.isDigit with
  | [] => none
  | ds => some (ds, cs.dropWhile Char.isDigit)

/-- The fraction in front, if there is one, and the rest. -/
def fraction? : List Char → Option (Option (List Char) × List Char)
  | '.' :: cs => (digits? cs).map fun (ds, rest) => (some ds, rest)
  | cs        => some (none, cs)

/-- The digits of an exponent with its sign, and the rest. -/
def signedDigits? : List Char → Option (Int × List Char)
  | '-' :: cs => (digits? cs).map fun (ds, rest) => (-(Nat.ofDigitChars 10 ds 0 : Int), rest)
  | '+' :: cs => (digits? cs).map fun (ds, rest) => ((Nat.ofDigitChars 10 ds 0 : Int), rest)
  | cs        => (digits? cs).map fun (ds, rest) => ((Nat.ofDigitChars 10 ds 0 : Int), rest)

/-- The exponent in front, if there is one, and the rest. -/
def exponent? : List Char → Option (Option Int × List Char)
  | 'e' :: cs | 'E' :: cs => (signedDigits? cs).map fun (n, rest) => (some n, rest)
  | cs => some (none, cs)

/-- The number with the given sign, integer part, fraction and exponent. -/
def assemble? (negative : Bool) (whole : List Char) (fraction : Option (List Char))
    (exponent : Option Int) : Option Number :=
  let digits := Nat.ofDigitChars 10 (whole ++ fraction.getD []) 0
  let scale := exponent.getD 0 - (fraction.getD []).length
  if !isFinite whole (fraction.getD []) (exponent.getD 0) then none
  else if fraction.isSome || exponent.isSome || (negative && digits == 0) then
    some (.decimal negative digits scale)
  else
    some (.integer (if negative then -digits else digits))

/-- The number in front, and the rest. -/
def read? (cs : List Char) : Option (Number × List Char) := do
  let (negative, cs) := sign cs
  let (whole, cs) ← digits? cs
  if whole.head? = some '0' ∧ whole.length ≠ 1 then none
  let (fraction, cs) ← fraction? cs
  let (exponent, cs) ← exponent? cs
  let number ← assemble? negative whole fraction exponent
  return (number, cs)

end EagerLambda.Json.Number
