import ArithExpr.Decimal
import ArithExpr.Expr.Basic

/-! Outlines: a tree shown one node per line, parents first, the operands of an operator indented
one step further than the operator. -/

namespace ArithExpr.Expr

/-- Columns by which operands stand to the right of their operator. -/
def indentWidth : Nat := 4

/-- What the line of the root says. -/
def label : Expr → String
  | literal v => String.ofList (Decimal.ofInt v.toInt) ++ " (Integer)"
  | binary op _ _ => toString op ++ " (" ++ op.name ++ ")"

def outlineLine (indent : Nat) (e : Expr) : String :=
  String.ofList (List.replicate indent ' ') ++ e.label

def outlineLines (indent : Nat) : Expr → List String
  | e@(literal _) => [outlineLine indent e]
  | e@(binary _ l r) =>
    outlineLine indent e ::
      (l.outlineLines (indent + indentWidth) ++ r.outlineLines (indent + indentWidth))

/-- The outline of a tree whose root stands at column `indent`, each line ended by a newline. -/
def outline (indent : Nat) (e : Expr) : String :=
  String.join ((e.outlineLines indent).map (· ++ "\n"))

/-- The most columns by which a line can be indented. -/
def columnLimit : Nat := 65535

/-- The nodes that are furthest from the root, and with them all others, can be indented as far as
an outline has them. -/
def IsPrintable (e : Expr) : Prop := indentWidth * (e.height - 1) ≤ columnLimit

instance (e : Expr) : Decidable e.IsPrintable := inferInstanceAs (Decidable (_ ≤ _))

theorem length_outlineLines (indent : Nat) (e : Expr) : (e.outlineLines indent).length = e.size := by
  induction e generalizing indent with
  | literal v => rfl
  | binary op l r ihl ihr => simp [outlineLines, ihl, ihr]; omega

end ArithExpr.Expr
