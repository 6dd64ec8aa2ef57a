import EagerLambda.Json.Basic
import EagerLambda.Text.Record

/-!
# JSON — text

The compact text of a document: no blanks, and no escapes but the necessary ones.  Each writer puts
its text in front of the text that follows.
-/

namespace EagerLambda.Json

/-- The letter after the backslash for the characters that have a short escape. -/
def shortEscape? : Char → Option Char
  | '"'    => some '"'
  | '\\'   => some '\\'
  | '\x08' => some 'b'
  | '\x0c' => some 'f'
  | '\n'   => some 'n'
  | '\r'   => some 'r'
  | '\t'   => some 't'
  | _      => none

/-- One character of a string.  The control characters without a short escape are written by their
code points, all others stand for themselves. -/
def escapeChar (c : Char) (rest : List Char) : List Char :=
  match shortEscape? c with
  | some letter => '\\' :: letter :: rest
  | none =>
    if c.toNat < 0x20 then
      '\\' :: 'u' :: '0' :: '0' :: Nat.digitChar (c.toNat / 16) ::
        Nat.digitChar (c.toNat % 16) :: rest
    else
      c :: rest

/-- A string between its quotes. -/
def stringText (s : String) (rest : List Char) : List Char :=
  '"' :: s.toList.foldr escapeChar ('"' :: rest)

/-- The text of a number. -/
def Number.text : Number → List Char → List Char
  | .integer n, rest => (Text.decimal n).toList ++ rest
  | .decimal negative digits exponent, rest =>
    (if negative then ['-'] else []) ++ Nat.toDigits 10 digits
      ++ 'e' :: (Text.decimal exponent).toList ++ rest

mutual

/-- The text of a document. -/
def text : Json → List Char → List Char
  | .null, rest        => 'n' :: 'u' :: 'l' :: 'l' :: rest
  | .bool true, rest   => 't' :: 'r' :: 'u' :: 'e' :: rest
  | .bool false, rest  => 'f' :: 'a' :: 'l' :: 's' :: 'e' :: rest
  | .num n, rest       => n.text rest
  | .str s, rest       => stringText s rest
  | .arr items, rest   => '[' :: itemsText items rest
  | .obj members, rest => '\x7b' :: membersText members rest

/-- The items of an array, divided by commas, and the closing bracket. -/
def itemsText : List Json → List Char → List Char
  | [], rest            => ']' :: rest
  | [item], rest        => item.text (']' :: rest)
  | item :: items, rest => item.text (',' :: itemsText items rest)

/-- The members of an object, divided by commas, and the closing brace. -/
def membersText : List (String × Json) → List Char → List Char
  | [], rest => '\x7d' :: rest
  | [(key, value)], rest => stringText key (':' :: value.text ('\x7d' :: rest))
  | (key, value) :: members, rest =>
    stringText key (':' :: value.text (',' :: membersText members rest))

end

/-- The document on one line. -/
def render (j : Json) : String := String.ofList (j.text [])

end EagerLambda.Json
