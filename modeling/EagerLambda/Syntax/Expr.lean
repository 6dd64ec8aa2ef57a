import EagerLambda.Syntax.Operator
import EagerLambda.Syntax.Ty

/-!
# Syntax — expressions

The trees of the language: a lambda calculus with literals, conditionals, binary operators and
recursive or plain `let`.  Integers are 64-bit words.
-/

namespace EagerLambda

/-- An expression. -/
inductive Expr where
  | var (name : String)
  | lam (param : String) (ty : Option Ty) (body : Expr)
  | app (func arg : Expr)
  | cond (test yes no : Expr)
  | binary (left : Expr) (op : Operator) (right : Expr)
  | letIn (recursive : Bool) (name : String) (value body : Expr)
  | int (value : Int64)
  | bool (value : Bool)
  | str (value : String)
  deriving DecidableEq

/-- The nine forms an expression can have. -/
inductive Kind where
  | var
  | lam
  | app
  | cond
  | binary
  | letIn
  | int
  | bool
  | str
  deriving DecidableEq

/-- What a reader calls the form. -/
def Kind.describe : Kind → String
  | .var    => "variable"
  | .lam    => "lambda"
  | .app    => "application"
  | .cond   => "if"
  | .binary => "binary operation"
  | .letIn  => "let"
  | .int    => "integer literal"
  | .bool   => "boolean literal"
  | .str    => "string literal"

namespace Expr

/-- The form of an expression. -/
def kind : Expr → Kind
  | .var _         => .var
  | .lam _ _ _     => .lam
  | .app _ _       => .app
  | .cond _ _ _    => .cond
  | .binary _ _ _  => .binary
  | .letIn _ _ _ _ => .letIn
  | .int _         => .int
  | .bool _        => .bool
  | .str _         => .str

/-- Whether the expression is a literal. -/
def isLiteral : Expr → Bool
  | .int _ | .bool _ | .str _ => true
  | _ => false

/-- `func` applied to the arguments one after the other. -/
def apps (func : Expr) (args : List Expr) : Expr := args.foldl .app func

end Expr

end EagerLambda
