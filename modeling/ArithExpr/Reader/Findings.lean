import ArithExpr.Decimal
import ArithExpr.Diagnostic
import ArithExpr.Operator

/-! A flat scan of a text: its diagnostics and how much of it is read, without a tree and without
nesting. The scan only counts the groups that are open and remembers whether an operand or an
operator is due. -/

namespace ArithExpr

structure Findings where
  diagnostics : List Diagnostic
  consumed : Nat
deriving DecidableEq

namespace Findings

def cons (d : Diagnostic) (f : Findings) : Findings := { f with diagnostics := d :: f.diagnostics }

/-- The findings of a scan that stops at this position with so many groups open. -/
def stop (position opened : Nat) (rest : List Char) : Findings where
  diagnostics :=
    List.replicate opened (.unclosedGroup position) ++
      if rest = [] then [] else [.trailingText (String.ofList rest) position]
  consumed := position

mutual

/-- The findings where an operand is due. -/
def ofOperand (limit position opened : Nat) (text : List Char) : Findings :=
  match text with
  | [] => cons (.unexpectedCharacter none position) (ofOperator limit position opened [])
  | c :: rest =>
    if c.isDigit then
      let digits := (c :: rest).takeWhile Char.isDigit
      let found :=
        ofOperator limit (position + digits.length) opened ((c :: rest).dropWhile Char.isDigit)
      if Decimal.toInt64? digits = none then cons (.invalidInteger .overflow position) found else found
    else if c = '(' then
      if opened < limit then ofOperand limit (position + 1) (opened + 1) rest
      else cons (.tooDeep limit position) (ofOperator limit (position + 1) opened rest)
    else cons (.unexpectedCharacter (some c) position) (ofOperator limit position opened (c :: rest))
termination_by 2 * text.length + 1
decreasing_by
  · simp
  · have := (List.dropWhile_suffix Char.isDigit (l := c :: rest)).length_le
    omega
  all_goals simp only [List.length_cons]; omega

/-- The findings where an operator is due. -/
def ofOperator (limit position opened : Nat) (text : List Char) : Findings :=
  match text with
  | [] => stop position opened []
  | c :: rest =>
    if (Operator.ofSymbol? c).isSome then ofOperand limit (position + 1) opened rest
    else if c = ')' ∧ 0 < opened then ofOperator limit (position + 1) (opened - 1) rest
    else stop position opened (c :: rest)
termination_by 2 * text.length
decreasing_by
  · simp; omega
  · simp

end

def ofText (limit : Nat) (text : List Char) : Findings := ofOperand limit 0 0 text

/-! The equations of the scan, one for each thing that can come next. -/

@[simp] theorem diagnostics_cons (d : Diagnostic) (f : Findings) :
    (cons d f).diagnostics = d :: f.diagnostics := rfl

@[simp] theorem consumed_cons (d : Diagnostic) (f : Findings) : (cons d f).consumed = f.consumed := rfl

variable {limit position opened : Nat} {digits rest text : List Char}

theorem ofOperand_digits (nonempty : digits ≠ []) (digit : ∀ c ∈ digits, c.isDigit)
    (ends : ∀ c ∈ rest.head?, ¬ c.isDigit) :
    ofOperand limit position opened (digits ++ rest) =
      if Decimal.toInt64? digits = none then
        cons (.invalidInteger .overflow position)
          (ofOperator limit (position + digits.length) opened rest)
      else ofOperator limit (position + digits.length) opened rest := by
  obtain ⟨c, more, rfl⟩ := List.exists_cons_of_ne_nil nonempty
  have hc : c.isDigit := digit c (by simp)
  rw [List.cons_append, ofOperand, if_pos hc, ← List.cons_append,
    Decimal.takeWhile_isDigit_append digit ends, Decimal.dropWhile_isDigit_append digit ends]

theorem ofOperand_open (room : opened < limit) :
    ofOperand limit position opened ('(' :: rest) =
      ofOperand limit (position + 1) (opened + 1) rest := by
  rw [ofOperand, if_neg (by decide), if_pos rfl, if_pos room]

theorem ofOperand_tooDeep (deep : limit ≤ opened) :
    ofOperand limit position opened ('(' :: rest) =
      cons (.tooDeep limit position) (ofOperator limit (position + 1) opened rest) := by
  rw [ofOperand, if_neg (by decide), if_pos rfl, if_neg (Nat.not_lt.2 deep)]

theorem ofOperand_unexpected (no_digit : ∀ c ∈ text.head?, ¬ c.isDigit)
    (no_group : text.head? ≠ some '(') :
    ofOperand limit position opened text =
      cons (.unexpectedCharacter text.head? position) (ofOperator limit position opened text) := by
  cases text with
  | nil => rw [ofOperand]; rfl
  | cons c rest =>
    rw [ofOperand, if_neg (no_digit c rfl), if_neg (by simpa using no_group)]
    rfl

theorem ofOperator_operator (op : Operator) :
    ofOperator limit position opened (op.symbol :: rest) =
      ofOperand limit (position + 1) opened rest := by
  rw [ofOperator, if_pos (by simp)]

theorem ofOperator_close :
    ofOperator limit position (opened + 1) (')' :: rest) =
      ofOperator limit (position + 1) opened rest := by
  rw [ofOperator, if_neg (by decide), if_pos ⟨rfl, Nat.succ_pos _⟩, Nat.add_sub_cancel]

theorem ofOperator_stop (no_operator : ∀ op : Operator, text.head? ≠ some op.symbol)
    (no_close : text.head? = some ')' → opened = 0) :
    ofOperator limit position opened text = stop position opened text := by
  cases text with
  | nil => rw [ofOperator]
  | cons c rest =>
    have not_operator : ¬ (Operator.ofSymbol? c).isSome := by
      intro h
      obtain ⟨op, hop⟩ := Option.isSome_iff_exists.1 h
      exact no_operator op (congrArg some (Operator.ofSymbol?_eq_some_iff.1 hop))
    have not_close : ¬ (c = ')' ∧ 0 < opened) := by
      rintro ⟨rfl, h⟩
      exact absurd (no_close rfl) (Nat.pos_iff_ne_zero.1 h)
    rw [ofOperator, if_neg not_operator, if_neg not_close]

end Findings

end ArithExpr
