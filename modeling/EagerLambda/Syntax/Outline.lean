import EagerLambda.Syntax.Expr
import EagerLambda.Text.Quoted

/-!
# Syntax — expressions in constructor notation

Every node by the name of its form and its named parts, so that nothing about the tree is left to
precedence.
-/

namespace EagerLambda.Expr

/-- The expression in constructor notation. -/
def outline : Expr → String
  | .var name => Text.record "Var" [("name", Text.quote name)]
  | .lam param ty body =>
    Text.record "Lambda" [("param", Text.quote param),
      ("param_ty", Text.optional (ty.map Ty.outline)), ("body", body.outline)]
  | .app func arg => Text.record "App" [("func", func.outline), ("arg", arg.outline)]
  | .cond test yes no =>
    Text.record "If" [("cond", test.outline), ("then_branch", yes.outline),
      ("else_branch", no.outline)]
  | .binary left op right =>
    Text.record "Binary" [("left", left.outline), ("op", op.outline), ("right", right.outline)]
  | .letIn recursive name value body =>
    Text.record "Let" [("recursive", Text.truth recursive), ("name", Text.quote name),
      ("value", value.outline), ("body", body.outline)]
  | .int n => Text.record "Int" [("value", Text.decimal n.toInt)]
  | .bool b => Text.record "Bool" [("value", Text.truth b)]
  | .str s => Text.record "Str" [("value", Text.quote s)]

end EagerLambda.Expr
