import EagerLambda.Syntax.Expr
import EagerLambda.Text.Quoted

/-!
# Syntax — surface text

Expressions as one would type them, on one line and with no parentheses but the necessary ones.
Every form stands at a level, the higher the tighter; a part whose level is below the one its
place requires is put in parentheses.
-/

namespace EagerLambda.Expr

/-- The level of applications, above every operator. -/
def appLevel : Nat := 5

/-- The level of names and literals, which never need parentheses. -/
def atomLevel : Nat := 6

/-- The level at which an expression stands.  A negative numeral starts with a sign, so it may not
stand where an atom is required. -/
def level : Expr → Nat
  | .letIn _ _ _ _ | .lam _ _ _ | .cond _ _ _ => 0
  | .binary _ op _ => op.precedence
  | .app _ _ => appLevel
  | .int n => if n < 0 then appLevel else atomLevel
  | .var _ | .bool _ | .str _ => atomLevel

/-- `text`, in parentheses if it stands at a lower level than `required`. -/
def fenced (required level : Nat) (text : String) : String :=
  if level < required then "(" ++ text ++ ")" else text

/-- The surface text of an expression. -/
def surface : Expr → String
  | .var name => name
  | .lam param none body => "\\" ++ param ++ " => " ++ body.surface
  | .lam param (some ty) body =>
    "\\" ++ param ++ ": " ++ ty.surface ++ " => " ++ body.surface
  | .app func arg =>
    fenced appLevel func.level func.surface ++ " " ++ fenced atomLevel arg.level arg.surface
  | .cond test yes no =>
    "if " ++ test.surface ++ " then " ++ yes.surface ++ " else " ++ no.surface
  | .binary left op right =>
    fenced op.precedence left.level left.surface ++ " " ++ op.symbol ++ " "
      ++ fenced (op.precedence + 1) right.level right.surface
  | .letIn recursive name value body =>
    (if recursive then "let rec " else "let ") ++ name ++ " = " ++ value.surface ++ " in "
      ++ body.surface
  | .int n => Text.decimal n.toInt
  | .bool b => Text.truth b
  | .str s => Text.quote s

end EagerLambda.Expr
