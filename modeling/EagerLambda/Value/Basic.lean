import EagerLambda.Syntax.Surface
import EagerLambda.Value.Intrinsic

/-!
# Values

What expressions evaluate to: words, truth values, strings, closures and builtins.  A closure holds
the environment it was made in, and an environment holds values, so the types are defined together.

Closures, builtins and the frames of environments are made one at a time and have an identity, a
number that no other of them has: two closures made at different times differ even where they show
alike.  A builtin runs one of the intrinsics, or a function of the host that is known here only by
its code, a member of `κ`; the values such a function has captured are kept beside the code.
-/

namespace EagerLambda

/-- What a builtin runs when it is called. -/
inductive Code (κ : Type) where
  | intrinsic (i : Intrinsic)
  | host (code : κ)

mutual

/-- A value. -/
inductive Value (κ : Type) where
  | int (n : Int64)
  | bool (b : Bool)
  | str (s : String)
  | closure (c : Closure κ)
  | builtin (b : Builtin κ)

/-- A function of the language with the environment it was made in.  The body of a recursive one
refers to the closure itself by its self name. -/
structure Closure (κ : Type) where
  id : Nat
  param : String
  body : Expr
  selfName : Option String
  env : Env κ

/-- A function that is not written in the language. -/
structure Builtin (κ : Type) where
  id : Nat
  name : String
  code : Code κ
  captured : Env κ

/-- A chain of frames, the most recent binding first. -/
inductive Env (κ : Type) where
  | empty
  | frame (id : Nat) (name : String) (value : Value κ) (rest : Env κ)

end

variable {κ : Type}

namespace Env

/-- The value of the most recent binding of `name`. -/
def lookup? : Env κ → String → Option (Value κ)
  | .empty, _ => none
  | .frame _ bound value rest, name => if bound = name then some value else rest.lookup? name

/-- The bound names, the most recent first and shadowed ones included. -/
def names : Env κ → List String
  | .empty => []
  | .frame _ name _ rest => name :: rest.names

/-- Whether `name` is bound. -/
def binds (env : Env κ) (name : String) : Bool := (env.lookup? name).isSome

/-- The identity of the most recent frame, if there is one. -/
def head? : Env κ → Option Nat
  | .empty => none
  | .frame id _ _ _ => some id

/-- Whether two environments are one chain: they start at the same frame, or neither has any. -/
def sameChain (a b : Env κ) : Bool := a.head? == b.head?

/-- The environment in constructor notation, by its names. -/
def outline (env : Env κ) : String :=
  Text.application "Environment" [Text.brackets (env.names.map Text.quote)]

end Env

namespace Closure

/-- The closure in constructor notation; the body is given by its surface text. -/
def outline (c : Closure κ) : String :=
  Text.record "Closure" [("param", Text.quote c.param), ("body", Text.quote c.body.surface),
    ("self_name", Text.optional (c.selfName.map Text.quote)),
    ("captures", Text.brackets (c.env.names.map Text.quote))]

end Closure

namespace Builtin

/-- The builtin in constructor notation. -/
def outline (b : Builtin κ) : String := Text.application "BuiltinFn" [b.name]

end Builtin

namespace Value

/-- The type of a value. -/
def tag : Value κ → Tag
  | .int _     => .int
  | .bool _    => .bool
  | .str _     => .string
  | .closure _ => .closure
  | .builtin _ => .builtin

/-- Whether the value can be applied to an argument. -/
def isCallable : Value κ → Bool
  | .closure _ | .builtin _ => true
  | _ => false

/-- The text of a value, with `hidden` the characters that strings show by their code points. -/
def renderWith (hidden : Char → Bool) : Value κ → String
  | .int n     => Text.decimal n.toInt
  | .bool b    => Text.truth b
  | .str s     => Text.quoteWith hidden s
  | .closure c => "<closure \\" ++ c.param ++ ">"
  | .builtin b => "<builtin " ++ b.name ++ ">"

/-- The text of a value. -/
def render (v : Value κ) : String := v.renderWith Text.isHidden

/-- Equality of values: words, truth values and strings by what they are, closures and builtins by
their identity. -/
def same : Value κ → Value κ → Bool
  | .int m, .int n => m == n
  | .bool a, .bool b => a == b
  | .str s, .str t => s == t
  | .closure c, .closure d => c.id == d.id
  | .builtin b, .builtin c => b.id == c.id
  | _, _ => false

end Value

end EagerLambda
