import ArithExpr.Decimal
import ArithExpr.Expr.Basic

/-! The text of a tree with as few parentheses as keep its shape. Chains of one level fold to the
left, so a left operand needs parentheses only if its operator binds looser, and a right operand
also if it binds equally. -/

namespace ArithExpr.Expr

/-- The precedence of the outermost operator. A literal has none and ranks above them all. -/
def precedence : Expr → Nat
  | literal _ => 3
  | binary op _ _ => op.precedence

/-- Puts parentheses around a text where they are called for. -/
def groupIf (grouped : Bool) (text : List Char) : List Char :=
  if grouped then '(' :: text ++ [')'] else text

def chars : Expr → List Char
  | literal v => Decimal.ofInt v.toInt
  | binary op l r =>
    groupIf (l.precedence < op.precedence) l.chars ++
      op.symbol :: groupIf (r.precedence ≤ op.precedence) r.chars

instance : ToString Expr := ⟨fun e => String.ofList e.chars⟩

@[simp] theorem groupIf_true (text : List Char) : groupIf true text = '(' :: text ++ [')'] := rfl

@[simp] theorem groupIf_false (text : List Char) : groupIf false text = text := rfl

@[simp] theorem toList_toString (e : Expr) : (toString e).toList = e.chars :=
  String.toList_ofList

example : (binary .sub (literal 8) (binary .sub (literal 3) (literal 2))).chars =
    ['8', '-', '(', '3', '-', '2', ')'] := by decide

end ArithExpr.Expr
