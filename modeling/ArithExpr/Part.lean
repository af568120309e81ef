import ArithExpr.Operator

/-! The parts of an expression. A phrase of a level chains operands with the operators of that
level: an expression is a phrase of the additive level and chains terms, a term is one of the
multiplicative level and chains factors, and a factor is a group or a literal. -/

namespace ArithExpr

inductive Part where
  | phrase (level : Level)
  | factor
deriving DecidableEq

/-- What a phrase of the level chains. -/
def Level.operand : Level → Part
  | .additive => .phrase .multiplicative
  | .multiplicative => .factor

namespace Part

def expression : Part := .phrase .additive

def term : Part := .phrase .multiplicative

/-- How many steps down from phrases to their operands lead to a factor. -/
def rank : Part → Nat
  | phrase .additive => 2
  | phrase .multiplicative => 1
  | factor => 0

/-- The precedence that an operator needs at least to stand in the part outside all groups. No
operator stands in a factor that way. -/
def precedence : Part → Nat
  | phrase level => level.precedence
  | factor => 3

theorem rank_phrase (level : Level) : (phrase level).rank = level.operand.rank + 1 := by
  cases level <;> rfl

@[simp] theorem precedence_phrase (level : Level) : (phrase level).precedence = level.precedence := rfl

@[simp] theorem precedence_operand (level : Level) :
    level.operand.precedence = level.precedence + 1 := by
  cases level <;> rfl

theorem precedence_le (part : Part) : part.precedence ≤ 3 := by
  rcases part with (_ | _) | _ <;> decide

theorem rank_le (part : Part) : part.rank ≤ 2 := by
  rcases part with (_ | _) | _ <;> decide

end Part

end ArithExpr
