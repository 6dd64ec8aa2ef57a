import EagerLambda.Json.Text
import EagerLambda.Syntax.Expr

/-!
# Interchange — writing

Expressions, types and operators as JSON documents.  An expression is an object with its kind first
and then its fields in a fixed order; a base type or an operator is its name.
-/

namespace EagerLambda

namespace Kind

/-- Every kind once. -/
def all : List Kind := [.var, .lam, .app, .cond, .binary, .letIn, .int, .bool, .str]

/-- The word by which a document names the kind. -/
def word : Kind → String
  | .var    => "var"
  | .lam    => "lambda"
  | .app    => "app"
  | .cond   => "if"
  | .binary => "binary"
  | .letIn  => "let"
  | .int    => "int"
  | .bool   => "bool"
  | .str    => "str"

/-- The fields of the kind, in order. -/
def fields : Kind → List String
  | .var    => ["name"]
  | .lam    => ["param", "param_ty", "body"]
  | .app    => ["func", "arg"]
  | .cond   => ["cond", "then_branch", "else_branch"]
  | .binary => ["left", "op", "right"]
  | .letIn  => ["recursive", "name", "value", "body"]
  | .int | .bool | .str => ["value"]

/-- An object of this kind with the given fields. -/
def object (kind : Kind) (parts : List Json) : Json :=
  .obj (("kind", .str kind.word) :: kind.fields.zip parts)

end Kind

/-- The operator as a document. -/
def Operator.toJson (op : Operator) : Json := .str op.name

/-- The type as a document. -/
def Ty.toJson : Ty → Json
  | .int    => .str "int"
  | .bool   => .str "bool"
  | .string => .str "string"
  | .arrow domain codomain => .obj [("arrow", .arr [domain.toJson, codomain.toJson])]

/-- The expression as a document.  A parameter without a type has `null` in its place. -/
def Expr.toJson : Expr → Json
  | .var name => Kind.var.object [.str name]
  | .lam param ty body =>
    Kind.lam.object [.str param, (ty.map Ty.toJson).getD .null, body.toJson]
  | .app func arg => Kind.app.object [func.toJson, arg.toJson]
  | .cond test yes no => Kind.cond.object [test.toJson, yes.toJson, no.toJson]
  | .binary left op right => Kind.binary.object [left.toJson, op.toJson, right.toJson]
  | .letIn recursive name value body =>
    Kind.letIn.object [.bool recursive, .str name, value.toJson, body.toJson]
  | .int n => Kind.int.object [.ofInt n.toInt]
  | .bool b => Kind.bool.object [.bool b]
  | .str s => Kind.str.object [.str s]

/-- The text of an operator. -/
def Operator.write (op : Operator) : String := op.toJson.render

/-- The text of a type. -/
def Ty.write (ty : Ty) : String := ty.toJson.render

/-- The text of an expression. -/
def Expr.write (e : Expr) : String := e.toJson.render

end EagerLambda
