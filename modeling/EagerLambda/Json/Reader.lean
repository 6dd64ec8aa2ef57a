import EagerLambda.Json.Number

/-!
# JSON — reading

The document a text spells, if it spells one: a single value with nothing but blanks around it.
Strings hold no raw control characters, and an escaped surrogate needs its partner.  Arrays and
objects may be nested to any depth; readers that give up at some depth are assumed not to have been
pushed that far.

Every reader takes the characters to read and yields what it has read with the rest.  Those that
call one another are given more fuel than there are characters, and each of them uses up at least
one character before it calls another.
-/

namespace EagerLambda.Json

/-- The blanks allowed between tokens. -/
def isBlank (c : Char) : Bool := c == ' ' || c == '\t' || c == '\n' || c == '\r'

/-- The text from its first character that is no blank. -/
def skipBlanks (cs : List Char) : List Char := cs.dropWhile isBlank

/-- The value of a hexadecimal digit, of either case. -/
def hexValue? (c : Char) : Option Nat :=
  if '0' ≤ c ∧ c ≤ '9' then some (c.toNat - 48)
  else if 'a' ≤ c ∧ c ≤ 'f' then some (c.toNat - 87)
  else if 'A' ≤ c ∧ c ≤ 'F' then some (c.toNat - 55)
  else none

/-- The number that four hexadecimal digits in front stand for, and the rest. -/
def hexUnit? : List Char → Option (Nat × List Char)
  | a :: b :: c :: d :: rest => do
    let a ← hexValue? a
    let b ← hexValue? b
    let c ← hexValue? c
    let d ← hexValue? d
    return (((a * 16 + b) * 16 + c) * 16 + d, rest)
  | _ => none

/-- The character a short escape stands for, by the letter after the backslash. -/
def unescape? : Char → Option Char
  | '"'  => some '"'
  | '\\' => some '\\'
  | '/'  => some '/'
  | 'b'  => some '\x08'
  | 'f'  => some '\x0c'
  | 'n'  => some '\n'
  | 'r'  => some '\r'
  | 't'  => some '\t'
  | _    => none

/-- The character that an escape by code point stands for, after its `u`, and the rest.  A character
past the first plane takes two escapes, the halves of a surrogate pair. -/
def codePoint? (cs : List Char) : Option (Char × List Char) := do
  let (high, cs) ← hexUnit? cs
  if high < 0xd800 ∨ 0xe000 ≤ high then
    return (Char.ofNat high, cs)
  else
    match cs with
    | '\\' :: 'u' :: cs =>
      let (low, cs) ← hexUnit? cs
      if high < 0xdc00 ∧ 0xdc00 ≤ low ∧ low < 0xe000 then
        return (Char.ofNat (0x10000 + (high - 0xd800) * 0x400 + (low - 0xdc00)), cs)
      else
        none
    | _ => none

/-- The next character of a string, and the rest.  A quote that is not escaped is none. -/
def stringChar? : List Char → Option (Char × List Char)
  | '\\' :: 'u' :: cs => codePoint? cs
  | '\\' :: c :: cs   => (unescape? c).map fun c => (c, cs)
  | c :: cs           => if c == '"' || c == '\\' || c.toNat < 0x20 then none else some (c, cs)
  | []                => none

/-- The rest of a string whose characters so far, the latest first, are `done`, up to and with its
closing quote. -/
def stringRest? : Nat → List Char → List Char → Option (String × List Char)
  | 0, _, _ => none
  | _ + 1, done, '"' :: cs => some (String.ofList done.reverse, cs)
  | fuel + 1, done, cs => do
    let (c, cs) ← stringChar? cs
    stringRest? fuel (c :: done) cs

mutual

/-- The value in front, after any blanks. -/
def value? : Nat → List Char → Option (Json × List Char)
  | 0, _ => none
  | fuel + 1, cs =>
    match skipBlanks cs with
    | 'n' :: 'u' :: 'l' :: 'l' :: cs => some (.null, cs)
    | 't' :: 'r' :: 'u' :: 'e' :: cs => some (.bool true, cs)
    | 'f' :: 'a' :: 'l' :: 's' :: 'e' :: cs => some (.bool false, cs)
    | '"' :: cs => (stringRest? fuel [] cs).map fun (s, rest) => (.str s, rest)
    | '[' :: cs =>
      match skipBlanks cs with
      | ']' :: cs => some (.arr [], cs)
      | cs => (items? fuel cs).map fun (items, rest) => (.arr items, rest)
    | '\x7b' :: cs =>
      match skipBlanks cs with
      | '\x7d' :: cs => some (.obj [], cs)
      | cs => (members? fuel cs).map fun (members, rest) => (.obj members, rest)
    | cs => (Number.read? cs).map fun (n, rest) => (.num n, rest)

/-- The items of an array that is not empty, and the closing bracket. -/
def items? : Nat → List Char → Option (List Json × List Char)
  | 0, _ => none
  | fuel + 1, cs => do
    let (item, cs) ← value? fuel cs
    match skipBlanks cs with
    | ',' :: cs =>
      let (items, cs) ← items? fuel cs
      return (item :: items, cs)
    | ']' :: cs => return ([item], cs)
    | _ => none

/-- The members of an object that is not empty, and the closing brace. -/
def members? : Nat → List Char → Option (List (String × Json) × List Char)
  | 0, _ => none
  | fuel + 1, cs =>
    match skipBlanks cs with
    | '"' :: cs => do
      let (key, cs) ← stringRest? fuel [] cs
      match skipBlanks cs with
      | ':' :: cs =>
        let (value, cs) ← value? fuel cs
        match skipBlanks cs with
        | ',' :: cs =>
          let (members, cs) ← members? fuel cs
          return ((key, value) :: members, cs)
        | '\x7d' :: cs => return ([(key, value)], cs)
        | _ => none
      | _ => none
    | _ => none

end

/-- The document that `s` spells. -/
def read? (s : String) : Option Json :=
  let cs := s.toList
  match value? (cs.length + 1) cs with
  | some (j, rest) => if (skipBlanks rest).isEmpty then some j else none
  | none => none

end EagerLambda.Json
