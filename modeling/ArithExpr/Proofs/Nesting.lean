import Mathlib.Data.List.Basic
import ArithExpr.Expr.Text
import ArithExpr.Grammar

/-! How deeply a text nests, piece by piece. That needs the pieces to be balanced: a balanced text
closes what it opens and nothing else, so what follows it nests as if it were not there. Sentences
are balanced, and so are the texts of all trees. -/

namespace ArithExpr

/-- Whatever is open before the text, as much is open after it. -/
def Balanced (text : List Char) : Prop :=
  ∀ opened more, nesting opened (text ++ more) = max (nesting opened text) (nesting opened more)

variable {text left right : List Char} {opened : Nat}

theorem nesting_nil (opened : Nat) : nesting opened [] = opened := rfl

theorem nesting_open (opened : Nat) (rest : List Char) :
    nesting opened ('(' :: rest) = nesting (opened + 1) rest := by
  have := le_nesting (opened + 1) rest
  simp only [nesting, ↓reduceIte]
  omega

theorem nesting_close (opened : Nat) (rest : List Char) :
    nesting (opened + 1) (')' :: rest) = max (opened + 1) (nesting opened rest) := rfl

theorem nesting_plain {c : Char} (hc : c ≠ '(' ∧ c ≠ ')') (rest : List Char) :
    nesting opened (c :: rest) = nesting opened rest := by
  have := le_nesting opened rest
  simp only [nesting, hc, ↓reduceIte]
  omega

theorem nesting_mono {a b : Nat} (h : a ≤ b) (text : List Char) :
    nesting a text ≤ nesting b text := by
  induction text generalizing a b with
  | nil => exact h
  | cons c rest ih =>
    simp only [nesting]
    refine Nat.max_le.2 ⟨Nat.le_trans h (Nat.le_max_left _ _),
      Nat.le_trans ?_ (Nat.le_max_right _ _)⟩
    split
    · exact ih (Nat.succ_le_succ h)
    · split
      · exact ih (Nat.sub_le_sub_right h 1)
      · exact ih h

theorem nesting_of_plain (h : ∀ c ∈ text, c ≠ '(' ∧ c ≠ ')') (more : List Char) :
    nesting opened (text ++ more) = nesting opened more := by
  induction text with
  | nil => rfl
  | cons c rest ih =>
    rw [List.cons_append, nesting_plain (h c (by simp)), ih fun d hd => h d (by simp [hd])]

theorem nesting_eq_of_plain (h : ∀ c ∈ text, c ≠ '(' ∧ c ≠ ')') :
    nesting opened text = opened := by
  rw [← List.append_nil text, nesting_of_plain h, nesting_nil]

namespace Balanced

theorem of_plain (h : ∀ c ∈ text, c ≠ '(' ∧ c ≠ ')') : Balanced text := by
  intro opened more
  have := le_nesting opened more
  rw [nesting_of_plain h, nesting_eq_of_plain h]
  omega

theorem append (hl : Balanced left) (hr : Balanced right) : Balanced (left ++ right) := by
  intro opened more
  rw [List.append_assoc, hl, hr, hl, Nat.max_assoc]

theorem nesting_group (h : Balanced text) (opened : Nat) (more : List Char) :
    nesting opened ('(' :: text ++ ')' :: more) =
      max (nesting (opened + 1) text) (nesting opened more) := by
  have := le_nesting (opened + 1) text
  rw [List.cons_append, nesting_open, h, nesting_close]
  omega

theorem nesting_parens (h : Balanced text) (opened : Nat) :
    nesting opened ('(' :: text ++ [')']) = nesting (opened + 1) text := by
  have := le_nesting (opened + 1) text
  rw [h.nesting_group, nesting_nil]
  omega

theorem group (h : Balanced text) : Balanced ('(' :: text ++ [')']) := by
  intro opened more
  rw [List.append_assoc, List.singleton_append, h.nesting_group, h.nesting_parens]

end Balanced

theorem Operator.symbol_plain (op : Operator) : op.symbol ≠ '(' ∧ op.symbol ≠ ')' := by
  cases op <;> decide

theorem Operator.not_isDigit_symbol (op : Operator) : ¬ op.symbol.isDigit := by
  cases op <;> decide

theorem plain_of_isDigit {c : Char} (h : c.isDigit) : c ≠ '(' ∧ c ≠ ')' := by
  refine ⟨?_, ?_⟩ <;> (rintro rfl; exact absurd h (by decide))

theorem Balanced.nesting_chain (hl : Balanced left) (op : Operator) :
    nesting opened (left ++ op.symbol :: right) =
      max (nesting opened left) (nesting opened right) := by
  rw [hl, nesting_plain op.symbol_plain]

theorem Balanced.chain (hl : Balanced left) (op : Operator) (hr : Balanced right) :
    Balanced (left ++ op.symbol :: right) := by
  have symbol : Balanced [op.symbol] := .of_plain (by simpa using op.symbol_plain)
  simpa using hl.append (symbol.append hr)

theorem Spells.balanced {part : Part} {e : Expr} (h : Spells part text e) : Balanced text := by
  induction h with
  | literal _ digit _ => exact .of_plain fun c hc => plain_of_isDigit (digit c hc)
  | group _ ih => exact ih.group
  | operand _ ih => exact ih
  | chain _ _ ih_first ih_last => exact ih_first.chain _ ih_last

theorem Decimal.plain_of_mem_ofInt {i : Int} : ∀ c ∈ Decimal.ofInt i, c ≠ '(' ∧ c ≠ ')' := by
  intro c hc
  rcases Decimal.minus_or_digit_of_mem_ofInt hc with rfl | digit
  · decide
  · exact plain_of_isDigit digit

theorem Expr.balanced_groupIf (h : Balanced text) (grouped : Bool) :
    Balanced (Expr.groupIf grouped text) := by
  cases grouped with
  | false => exact h
  | true => exact h.group

theorem Expr.balanced_chars (e : Expr) : Balanced e.chars := by
  induction e with
  | literal v => exact .of_plain Decimal.plain_of_mem_ofInt
  | binary op l r ihl ihr =>
    exact (balanced_groupIf ihl _).chain op (balanced_groupIf ihr _)

end ArithExpr
