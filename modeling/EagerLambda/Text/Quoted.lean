import EagerLambda.Text.Hidden

/-!
# Text — quoted strings

A string between double quotes, so that it can be told apart from its surroundings and read off
the page: the quote, the backslash, the NUL and the three common blanks have short escapes, a
hidden character is written by its code point, and every other character stands for itself.

Which characters are hidden is a parameter; `quote` takes those of `isHidden`.
-/

namespace EagerLambda.Text

/-- The letter after the backslash in the short escape of a character that has one. -/
def shortEscape? : Char → Option Char
  | '\x00' => some '0'
  | '\t'   => some 't'
  | '\n'   => some 'n'
  | '\r'   => some 'r'
  | '"'    => some '"'
  | '\\'   => some '\\'
  | _      => none

/-- One character inside the quotes. -/
def escapeChar (hidden : Char → Bool) (c : Char) : List Char :=
  match shortEscape? c with
  | some letter => ['\\', letter]
  | none =>
    if hidden c then
      ['\\', 'u', '\x7b'] ++ Nat.toDigits 16 c.toNat ++ ['\x7d']
    else
      [c]

/-- The characters of `s` between double quotes, with `hidden` the characters that are written by
their code points. -/
def quoteWith (hidden : Char → Bool) (s : String) : String :=
  String.ofList ('"' :: (s.toList.flatMap (escapeChar hidden) ++ ['"']))

/-- The quoted form of `s`. -/
def quote (s : String) : String := quoteWith isHidden s

end EagerLambda.Text
