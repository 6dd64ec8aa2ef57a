import EagerLambda.Word
import EagerLambda.Value.Error

/-!
# Evaluation — intrinsics

The four functions on strings.  Three of them take a non-empty string apart; the fourth makes a
string of one character from the character's code point.
-/

namespace EagerLambda.Intrinsic

variable {κ : Type}

/-- The character with the code point `n`.  Surrogates and numbers past the last plane are none. -/
def charOf? (n : Int64) : Option Char :=
  let code := n.toInt.toNat
  if 0 ≤ n ∧ code.isValidChar then some (Char.ofNat code) else none

/-- A function of the first character and the rest of a non-empty string. -/
def onChars (i : Intrinsic) (f : Char → List Char → Value κ) :
    Value κ → Except (EvalError κ) (Value κ)
  | .str s =>
    match s.toList with
    | []      => .error (.emptyString i.name)
    | c :: cs => .ok (f c cs)
  | found => .error (.invalidArgument i.name Tag.string.name found)

/-- The intrinsic applied to a value. -/
def apply : Intrinsic → Value κ → Except (EvalError κ) (Value κ)
  | .firstChar      => onChars .firstChar fun c _ => .str (String.ofList [c])
  | .remainingChars => onChars .remainingChars fun _ cs => .str (String.ofList cs)
  | .charCode       => onChars .charCode fun c _ => .int (Int64.ofNat c.toNat)
  | .codeChar       => fun
    | .int n =>
      match charOf? n with
      | some c => .ok (.str (String.ofList [c]))
      | none   => .error (.invalidCharCode n)
    | found => .error (.invalidArgument codeChar.name Tag.int.name found)

end EagerLambda.Intrinsic
