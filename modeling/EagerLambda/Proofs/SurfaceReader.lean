import EagerLambda.Syntax.Surface
import EagerLambda.Proofs.Lexemes

/-!
# Surface text — a reader

A reader of surface text, to show that the text determines the expression.  It reads an expression
at a level: first what stands on its own (`primary?`), then as many operands as the level allows
(`more?`).  Applications are read like operators that are written as a blank and bind tightest
(`Joint`).

The reader takes fuel.  What it yields with enough fuel it yields with more (`Eventually`), so there
is no need to count.
-/

namespace EagerLambda

namespace Surface

open EagerLambda.Text

/-! ### Names -/

/-- Letters, digits and the underscore. -/
def isNameChar (c : Char) : Bool := c.isAlphanum || c == '_'

/-- The words that are no names. -/
def keywords : List String := ["let", "rec", "in", "if", "then", "else", "true", "false"]

/-- A name: letters, digits and underscores, not starting with a digit, and no keyword. -/
def IsName (s : String) : Prop :=
  s.toList ≠ [] ∧ s.toList.all isNameChar = true ∧ s.toList.head?.any Char.isDigit = false ∧
    s ∉ keywords

instance (s : String) : Decidable (IsName s) := inferInstanceAs (Decidable (_ ∧ _ ∧ _ ∧ _))

/-- The longest word in front, and the rest. -/
def word (cs : List Char) : String × List Char :=
  (String.ofList (cs.takeWhile isNameChar), cs.dropWhile isNameChar)

/-- The text after `lit`, if it starts with that. -/
def expect? : List Char → List Char → Option (List Char)
  | [], cs => some cs
  | c :: lit, d :: cs => if c = d then expect? lit cs else none
  | _ :: _, [] => none

/-! ### Types -/

/-- The base type with the given name. -/
def base? (name : String) : Option Ty :=
  if name = "Int" then some .int
  else if name = "Bool" then some .bool
  else if name = "String" then some .string
  else none

mutual

/-- The type in front.  An arrow takes all that follows as its codomain. -/
def ty? : Nat → List Char → Option (Ty × List Char)
  | 0, _ => none
  | fuel + 1, cs => do
    let (domain, cs) ← domain? fuel cs
    match expect? " -> ".toList cs with
    | some cs => do
      let (codomain, cs) ← ty? fuel cs
      return (.arrow domain codomain, cs)
    | none => return (domain, cs)

/-- A base type, or a type in parentheses. -/
def domain? : Nat → List Char → Option (Ty × List Char)
  | 0, _ => none
  | fuel + 1, '(' :: cs => do
    let (ty, cs) ← ty? fuel cs
    let cs ← expect? [')'] cs
    return (ty, cs)
  | _ + 1, cs => (base? (word cs).1).map fun ty => (ty, (word cs).2)

end

/-- The annotation of a parameter, if there is one. -/
def annotation? (fuel : Nat) (cs : List Char) : Option (Option Ty × List Char) :=
  match expect? ": ".toList cs with
  | some cs => (ty? fuel cs).map fun (ty, cs) => (some ty, cs)
  | none => some (none, cs)

/-! ### Joints -/

/-- What joins two operands: an operator, or the blank of an application. -/
inductive Joint where
  | apply
  | operator (op : Operator)

namespace Joint

/-- How tightly the joint binds. -/
def precedence : Joint → Nat
  | .apply       => Expr.appLevel
  | .operator op => op.precedence

/-- The expression that joins two others. -/
def build : Joint → Expr → Expr → Expr
  | .apply, left, right       => .app left right
  | .operator op, left, right => .binary left op right

/-- The text between the operands. -/
def text : Joint → List Char
  | .apply       => [' ']
  | .operator op => ' ' :: op.symbol.toList ++ [' ']

end Joint

/-- The operator in front, and what follows its blank. -/
def operator? : List Char → Option (Operator × List Char)
  | '+' :: ' ' :: cs => some (.add, cs)
  | '-' :: ' ' :: cs => some (.subtract, cs)
  | '*' :: ' ' :: cs => some (.multiply, cs)
  | '/' :: ' ' :: cs => some (.divide, cs)
  | '%' :: ' ' :: cs => some (.mod, cs)
  | '>' :: ' ' :: cs => some (.higher, cs)
  | '<' :: ' ' :: cs => some (.lower, cs)
  | '=' :: '=' :: ' ' :: cs => some (.equality, cs)
  | '#' :: ' ' :: cs => some (.concat, cs)
  | _ => none

/-- Whether an argument can start here.  The words that divide the parts of a form are no
arguments. -/
def startsArgument : List Char → Bool
  | [] => false
  | c :: cs =>
    c == '(' || c == '"' || (isNameChar c && (word (c :: cs)).1 ∉ ["in", "then", "else"])

/-- The joint in front, and the text from the right operand on. -/
def joint? : List Char → Option (Joint × List Char)
  | ' ' :: cs =>
    match operator? cs with
    | some (op, cs) => some (.operator op, cs)
    | none => if startsArgument cs then some (.apply, cs) else none
  | _ => none

/-! ### Expressions -/

/-- The literal with the given digits. -/
def numeral (negative : Bool) (digits : List Char) : Expr :=
  let n : Int := Nat.ofDigitChars 10 digits 0
  .int (Int64.ofInt (if negative then -n else n))

/-- Whether the word that makes a binding recursive stands in front, and the text from the name
on. -/
def recursion? (cs : List Char) : Option (Bool × List Char) :=
  if (word cs).1 = "rec" then (expect? [' '] (word cs).2).map fun cs => (true, cs)
  else some (false, cs)

mutual

/-- The expression in front, with operands that bind at least as tightly as `level`. -/
def expr? : Nat → Nat → List Char → Option (Expr × List Char)
  | 0, _, _ => none
  | fuel + 1, level, cs => do
    let (left, cs) ← primary? fuel cs
    more? fuel level left cs

/-- The expression that starts with the operand `left`. -/
def more? : Nat → Nat → Expr → List Char → Option (Expr × List Char)
  | 0, _, _, _ => none
  | fuel + 1, level, left, cs =>
    match joint? cs with
    | some (joint, after) =>
      if level ≤ joint.precedence then do
        let (right, cs) ← expr? fuel (joint.precedence + 1) after
        more? fuel level (joint.build left right) cs
      else some (left, cs)
    | none => some (left, cs)

/-- What stands on its own: an expression in parentheses, a literal, a name, or a form that goes on
as far as it can. -/
def primary? : Nat → List Char → Option (Expr × List Char)
  | 0, _ => none
  | fuel + 1, cs =>
    match cs with
    | '(' :: cs => do
      let (e, cs) ← expr? fuel 0 cs
      let cs ← expect? [')'] cs
      return (e, cs)
    | '\\' :: cs => do
      let (ty, after) ← annotation? fuel (word cs).2
      let after ← expect? " => ".toList after
      let (body, after) ← expr? fuel 0 after
      return (.lam (word cs).1 ty body, after)
    | '"' :: cs => do
      let (s, cs) ← unquote? fuel cs
      return (.str (String.ofList s), cs)
    | '-' :: cs => some (numeral true (word cs).1.toList, (word cs).2)
    | cs => phrase? fuel (word cs).1 (word cs).2

/-- What starts with the given word. -/
def phrase? : Nat → String → List Char → Option (Expr × List Char)
  | 0, _, _ => none
  | fuel + 1, first, cs =>
    if first.toList.head?.any Char.isDigit then some (numeral false first.toList, cs)
    else if first = "let" then do
      let cs ← expect? [' '] cs
      let (recursive, cs) ← recursion? cs
      let (name, cs) := word cs
      let cs ← expect? " = ".toList cs
      let (value, cs) ← expr? fuel 0 cs
      let cs ← expect? " in ".toList cs
      let (body, cs) ← expr? fuel 0 cs
      return (.letIn recursive name value body, cs)
    else if first = "if" then do
      let cs ← expect? [' '] cs
      let (test, cs) ← expr? fuel 0 cs
      let cs ← expect? " then ".toList cs
      let (yes, cs) ← expr? fuel 0 cs
      let cs ← expect? " else ".toList cs
      let (no, cs) ← expr? fuel 0 cs
      return (.cond test yes no, cs)
    else if first = "true" then some (.bool true, cs)
    else if first = "false" then some (.bool false, cs)
    else some (.var first, cs)

end

end Surface

namespace Expr

/-- Every variable, parameter and binder of the expression has a name. -/
def Named : Expr → Prop
  | .var name => Surface.IsName name
  | .lam param _ body => Surface.IsName param ∧ body.Named
  | .app func arg => func.Named ∧ arg.Named
  | .cond test yes no => test.Named ∧ yes.Named ∧ no.Named
  | .binary left _ right => left.Named ∧ right.Named
  | .letIn _ name value body => Surface.IsName name ∧ value.Named ∧ body.Named
  | .int _ | .bool _ | .str _ => True

instance instDecidableNamed : (e : Expr) → Decidable e.Named
  | .var name => inferInstanceAs (Decidable (Surface.IsName name))
  | .lam param _ body =>
    have := instDecidableNamed body
    inferInstanceAs (Decidable (Surface.IsName param ∧ body.Named))
  | .app func arg =>
    have := instDecidableNamed func
    have := instDecidableNamed arg
    inferInstanceAs (Decidable (func.Named ∧ arg.Named))
  | .cond test yes no =>
    have := instDecidableNamed test
    have := instDecidableNamed yes
    have := instDecidableNamed no
    inferInstanceAs (Decidable (test.Named ∧ yes.Named ∧ no.Named))
  | .binary left _ right =>
    have := instDecidableNamed left
    have := instDecidableNamed right
    inferInstanceAs (Decidable (left.Named ∧ right.Named))
  | .letIn _ name value body =>
    have := instDecidableNamed value
    have := instDecidableNamed body
    inferInstanceAs (Decidable (Surface.IsName name ∧ value.Named ∧ body.Named))
  | .int _ | .bool _ | .str _ => inferInstanceAs (Decidable True)

end Expr

end EagerLambda
