import ArithExpr.Decimal
import ArithExpr.Expr.Basic
import ArithExpr.Part

/-! The language of expressions, as a relation between texts and trees. A phrase of a level is one
operand of the level, or a phrase of the level, an operator of it and another operand: read this
way a chain can only fold to the left. -/

namespace ArithExpr

/-- The text is a way to write the tree as this part of an expression. -/
inductive Spells : Part → List Char → Expr → Prop where
  | literal {digits : List Char} {v : Int64} (nonempty : digits ≠ [])
      (digit : ∀ c ∈ digits, c.isDigit) (value : Decimal.toInt64? digits = some v) :
      Spells .factor digits (.literal v)
  | group {text : List Char} {e : Expr} (inner : Spells .expression text e) :
      Spells .factor ('(' :: text ++ [')']) e
  | operand {level : Level} {text : List Char} {e : Expr} (only : Spells level.operand text e) :
      Spells (.phrase level) text e
  | chain {op : Operator} {left right : List Char} {l r : Expr}
      (first : Spells (.phrase op.level) left l) (last : Spells op.level.operand right r) :
      Spells (.phrase op.level) (left ++ op.symbol :: right) (.binary op l r)

/-- The greatest number of groups open at one place of a text before which `opened` are open. -/
def nesting (opened : Nat) : List Char → Nat
  | [] => opened
  | c :: rest =>
    max opened (nesting (if c = '(' then opened + 1 else if c = ')' then opened - 1 else opened) rest)

theorem le_nesting (opened : Nat) (text : List Char) : opened ≤ nesting opened text := by
  cases text with
  | nil => exact Nat.le_refl _
  | cons c rest => exact Nat.le_max_left _ _

end ArithExpr
