import ArithExpr.Reader.Findings
import ArithExpr.Proofs.Reads

/-! The flat scan finds what a reading finds. A reader stands for the scan that goes on from its
place, and what such a scan will have found in all is the same before and after every part. The one
step where the two differ is the end of an unclosed group: there the reader goes up one group at a
time, and the scan has reported them all at once. -/

namespace ArithExpr

namespace Findings

/-- The findings together with the diagnostics before them. -/
def after (before : List Diagnostic) (f : Findings) : Findings :=
  { f with diagnostics := before ++ f.diagnostics }

theorem after_cons (before : List Diagnostic) (d : Diagnostic) (f : Findings) :
    (cons d f).after before = f.after (before ++ [d]) := by
  simp [after, cons]

theorem stop_succ (position opened : Nat) (rest : List Char) : stop position (opened + 1) rest =
    cons (.unclosedGroup position) (stop position opened rest) := rfl

end Findings

namespace Reader

/-- What is found in all if a scan goes on from here and an operand is due. -/
def operandFindings (s : Reader) : Findings :=
  (Findings.ofOperand s.limit s.position s.depth s.rest).after s.diagnostics

/-- What is found in all if a scan goes on from here and an operator is due. -/
def operatorFindings (s : Reader) : Findings :=
  (Findings.ofOperator s.limit s.position s.depth s.rest).after s.diagnostics

variable {s : Reader}

@[simp] theorem diagnostics_skip (n : Nat) : (s.skip n).diagnostics = s.diagnostics := rfl

@[simp] theorem diagnostics_openGroup : s.openGroup.diagnostics = s.diagnostics := rfl

@[simp] theorem diagnostics_closeGroup : s.closeGroup.diagnostics = s.diagnostics := rfl

@[simp] theorem diagnostics_start : s.start.diagnostics = s.diagnostics := rfl

/-! One step of the reader and of the scan. -/

theorem operandFindings_digits (digit : s.digits ≠ []) :
    s.operandFindings =
      if Decimal.toInt64? s.digits = none then
        ((s.skip s.digits.length).report (.invalidInteger .overflow s.position)).operatorFindings
      else (s.skip s.digits.length).operatorFindings := by
  rw [operandFindings, rest_eq_digits_append,
    Findings.ofOperand_digits digit isDigit_of_mem_digits s.not_isDigit_after_digits]
  split
  · simp [operatorFindings, Findings.after_cons]
  · rfl

theorem operandFindings_open (opens : s.next? = some '(') (room : s.depth < s.limit) :
    s.operandFindings = (s.skip 1).openGroup.operandFindings := by
  rw [operandFindings, rest_of_next? opens, Findings.ofOperand_open room]
  rfl

theorem operandFindings_tooDeep (opens : s.next? = some '(') (deep : s.limit ≤ s.depth) :
    s.operandFindings = ((s.skip 1).report (.tooDeep s.limit s.position)).operatorFindings := by
  rw [operandFindings, rest_of_next? opens, Findings.ofOperand_tooDeep deep, Findings.after_cons]
  simp [operatorFindings]

theorem operandFindings_unexpected (no_digit : s.digits = []) (no_group : s.next? ≠ some '(') :
    s.operandFindings =
      (s.report (.unexpectedCharacter s.next? s.position)).operatorFindings := by
  have not_digit : ∀ c ∈ s.rest.head?, ¬ c.isDigit := by
    simpa [no_digit] using not_isDigit_after_digits (s := s)
  rw [operandFindings, Findings.ofOperand_unexpected not_digit no_group, Findings.after_cons]
  simp [operatorFindings, next?]

theorem operatorFindings_operator {op : Operator} (next : s.next? = some op.symbol) :
    s.operatorFindings = (s.skip 1).operandFindings := by
  rw [operatorFindings, rest_of_next? next, Findings.ofOperator_operator]
  rfl

theorem operatorFindings_close (closes : s.next? = some ')') (opened : 0 < s.depth) :
    s.operatorFindings = (s.closeGroup.skip 1).operatorFindings := by
  obtain ⟨k, hk⟩ := Nat.exists_eq_succ_of_ne_zero (Nat.ne_of_gt opened)
  rw [operatorFindings, rest_of_next? closes, hk, Findings.ofOperator_close]
  simp [operatorFindings, hk]

/-- Where an expression is over, the scan stops, if it is not for a closing parenthesis. -/
theorem ofOperator_eq_stop (isOver : Part.expression.IsOver s)
    (no_close : s.next? = some ')' → s.depth = 0) (opened : Nat) (le : opened ≤ s.depth) :
    Findings.ofOperator s.limit s.position opened s.rest =
      Findings.stop s.position opened s.rest := by
  apply Findings.ofOperator_stop
  · intro op next
    have := isOver op next
    revert this
    cases op <;> decide
  · intro close
    have := no_close close
    omega

theorem operatorFindings_unclosed (isOver : Part.expression.IsOver s)
    (no_close : s.next? ≠ some ')') (opened : 0 < s.depth) :
    s.operatorFindings =
      (s.closeGroup.report (.unclosedGroup s.position)).operatorFindings := by
  obtain ⟨k, hk⟩ := Nat.exists_eq_succ_of_ne_zero (Nat.ne_of_gt opened)
  have stops := ofOperator_eq_stop isOver (fun close => absurd close no_close)
  rw [operatorFindings, stops _ (Nat.le_refl _), hk, Findings.stop_succ, Findings.after_cons,
    ← stops k (by omega)]
  simp [operatorFindings, hk]

theorem operatorFindings_end (isOver : Part.expression.IsOver s) (outermost : s.depth = 0) :
    s.operatorFindings = ⟨s.reportRest.diagnostics, s.position⟩ := by
  unfold operatorFindings reportRest
  rw [ofOperator_eq_stop isOver (fun _ => outermost) _ (Nat.le_refl _), outermost]
  split <;> simp_all [Findings.stop, Findings.after]

end Reader

/-- What is found in all does not change while a part is read. -/
theorem Reads.findings_eq {part : Part} {s t : Reader} {tree : Option Expr}
    (h : Reads part s tree t) : s.operandFindings = t.operatorFindings := by
  induction h with
  | literal digit value => rw [Reader.operandFindings_digits digit, if_neg (by simp [value])]
  | overflow digit large => rw [Reader.operandFindings_digits digit, if_pos large]
  | unexpected no_digit no_group => exact Reader.operandFindings_unexpected no_digit no_group
  | tooDeep opens deep => exact Reader.operandFindings_tooDeep opens deep
  | @closed s t _ opens room inner closes ih =>
    have depth := inner.depth_eq
    calc s.operandFindings
        = (s.skip 1).openGroup.operandFindings := Reader.operandFindings_open opens room
      _ = t.operatorFindings := ih
      _ = (t.closeGroup.skip 1).operatorFindings :=
        Reader.operatorFindings_close closes (by simp [depth])
  | @unclosed s t _ opens room inner isOver no_close ih =>
    have depth := inner.depth_eq
    calc s.operandFindings
        = (s.skip 1).openGroup.operandFindings := Reader.operandFindings_open opens room
      _ = t.operatorFindings := ih
      _ = (t.closeGroup.report (.unclosedGroup t.position)).operatorFindings :=
        Reader.operatorFindings_unclosed isOver no_close (by simp [depth])
  | operand _ _ ih => exact ih
  | chain _ next _ _ ih_first ih_last =>
    rw [ih_first, Reader.operatorFindings_operator next, ih_last]

theorem Reader.operandFindings_eq_outcome {s : Reader} (outermost : s.depth = 0) :
    s.operandFindings = ⟨s.outcome.diagnostics, s.outcome.consumed⟩ := by
  obtain ⟨tree, t, h, isOver, outcome⟩ := s.exists_reads_outcome
  have depth : t.depth = 0 := h.depth_eq.trans outermost
  rw [outcome, ← t.operatorFindings_end isOver depth, ← h.findings_eq]
  rfl

theorem findings_parse (text : String) (limit : Nat) :
    Findings.ofText limit text.toList =
      ⟨(parse text limit).diagnostics, (parse text limit).consumed⟩ := by
  have h := Reader.operandFindings_eq_outcome (s := .ofChars text.toList limit) rfl
  unfold parse
  rw [← h]
  rfl

/-- The diagnostics of a text, and how much of it is read, are those of the flat scan. -/
theorem parse_eq_scan (text : String) (limit : Nat) :
    (parse text limit).diagnostics = (Findings.ofText limit text.toList).diagnostics ∧
      (parse text limit).consumed = (Findings.ofText limit text.toList).consumed := by
  rw [findings_parse]
  exact ⟨rfl, rfl⟩

end ArithExpr
