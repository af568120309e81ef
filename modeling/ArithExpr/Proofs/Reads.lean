import ArithExpr.Proofs.Steps

/-! Reading as a relation: from which reader to which a part can be read, and with what tree. A
chain is read one operand at a time, the last one last, so one induction follows a whole reading.
The main fact is `reads_iff`: the function `read` stops exactly where the relation can and no
operator goes on. -/

namespace ArithExpr

/-- An operator that comes next is too loose for the part, so that it cannot go on. -/
def Part.IsOver (part : Part) (s : Reader) : Prop :=
  ∀ op, s.next? = some (Operator.symbol op) → op.precedence < part.precedence

/-- A part can be read from `s`, which comes to a tree or none and leaves the reader at `t`. A
phrase may end before an operator of its own level here. -/
inductive Reads : Part → Reader → Option Expr → Reader → Prop where
  | literal {s : Reader} {v : Int64} (digit : s.digits ≠ [])
      (value : Decimal.toInt64? s.digits = some v) :
      Reads .factor s (some (.literal v)) (s.skip s.digits.length)
  | overflow {s : Reader} (digit : s.digits ≠ []) (large : Decimal.toInt64? s.digits = none) :
      Reads .factor s none ((s.skip s.digits.length).report (.invalidInteger .overflow s.position))
  | unexpected {s : Reader} (no_digit : s.digits = []) (no_group : s.next? ≠ some '(') :
      Reads .factor s none (s.report (.unexpectedCharacter s.next? s.position))
  | tooDeep {s : Reader} (opens : s.next? = some '(') (deep : s.limit ≤ s.depth) :
      Reads .factor s none ((s.skip 1).report (.tooDeep s.limit s.position))
  | closed {s t : Reader} {tree : Option Expr} (opens : s.next? = some '(')
      (room : s.depth < s.limit) (inner : Reads .expression (s.skip 1).openGroup tree t)
      (closes : t.next? = some ')') :
      Reads .factor s tree (t.closeGroup.skip 1)
  | unclosed {s t : Reader} {tree : Option Expr} (opens : s.next? = some '(')
      (room : s.depth < s.limit) (inner : Reads .expression (s.skip 1).openGroup tree t)
      (isOver : Part.expression.IsOver t) (no_close : t.next? ≠ some ')') :
      Reads .factor s tree (t.closeGroup.report (.unclosedGroup t.position))
  | operand {level : Level} {s t : Reader} {tree : Option Expr}
      (only : Reads level.operand s tree t) (isOver : level.operand.IsOver t) :
      Reads (.phrase level) s tree t
  | chain {op : Operator} {s t u : Reader} {left right : Option Expr}
      (first : Reads (.phrase op.level) s left t) (next : t.next? = some op.symbol)
      (last : Reads op.level.operand (t.skip 1) right u) (isOver : op.level.operand.IsOver u) :
      Reads (.phrase op.level) s (Expr.combine? op left right) u

namespace Reader

variable {s : Reader}

/-! The three ends of a literal. -/

theorem result_literal {v : Int64} (digit : s.digits ≠ [])
    (value : Decimal.toInt64? s.digits = some v) :
    s.literal.result = (some (.literal v), s.skip s.digits.length) := by
  simp [literal, integer, digit, value, Reading.result, skipDigits_eq]

theorem result_literal_of_overflow (digit : s.digits ≠ [])
    (large : Decimal.toInt64? s.digits = none) :
    s.literal.result =
      (none, (s.skip s.digits.length).report (.invalidInteger .overflow s.position)) := by
  simp [literal, integer, digit, large, Reading.result, skipDigits_eq]

theorem result_literal_of_no_digit (no_digit : s.digits = []) :
    s.literal.result = (none, s.report (.unexpectedCharacter s.next? s.position)) := by
  simp [literal, integer, no_digit, Reading.result]

end Reader

theorem Operator.precedence_le_two (op : Operator) : op.precedence ≤ 2 := by cases op <;> decide

theorem Level.precedence_injective {a b : Level} (h : a.precedence = b.precedence) : a = b := by
  cases a <;> cases b <;> simp_all [Level.precedence]

theorem Part.isOver_factor (s : Reader) : Part.factor.IsOver s :=
  fun op _ => Nat.lt_succ_of_le op.precedence_le_two

theorem Part.isOver_of_next?_close {part : Part} {s : Reader} (closes : s.next? = some ')') :
    part.IsOver s := by
  intro op next
  rw [closes] at next
  cases op <;> cases next

variable {part : Part} {s t : Reader} {tree left : Option Expr} {level : Level} {n : Nat}

theorem Part.IsOver.operator?_eq_none (isOver : (Part.phrase level).IsOver s) :
    s.operator? level = none := by
  rw [Reader.operator?_eq_none_iff]
  rintro op next rfl
  exact Nat.lt_irrefl _ (isOver op next)

theorem Part.isOver_operand_iff : level.operand.IsOver s ↔
    ∀ op : Operator, s.next? = some op.symbol → op.precedence ≤ level.precedence := by
  simp only [Part.IsOver, Part.precedence_operand, Nat.lt_succ_iff]

/-- Whatever part has been read, no operator that binds tighter comes next. -/
theorem Reads.next_le (h : Reads part s tree t) {op : Operator} (next : t.next? = some op.symbol) :
    op.precedence ≤ part.precedence := by
  cases h with
  | operand _ isOver => exact Part.isOver_operand_iff.1 isOver op next
  | chain _ _ _ isOver => exact Part.isOver_operand_iff.1 isOver op next
  | _ => exact Nat.le_succ_of_le op.precedence_le_two

theorem Reads.isOver_of_operator? (h : Reads (.phrase level) s tree t)
    (stop : t.operator? level = none) : (Part.phrase level).IsOver t := by
  intro op next
  have ne := Reader.operator?_eq_none_iff.1 stop op next
  exact Nat.lt_of_le_of_ne (h.next_le next) fun same => ne (Level.precedence_injective same)

/-! What a whole reading changes. -/

theorem Reads.limit_eq (h : Reads part s tree t) : t.limit = s.limit := by
  induction h with
  | literal | overflow | unexpected | tooDeep => rfl
  | closed _ _ _ _ ih => simpa using ih
  | unclosed _ _ _ _ _ ih => simpa using ih
  | operand _ _ ih => exact ih
  | chain _ _ _ _ ih_first ih_last => exact ih_last.trans ih_first

theorem Reads.depth_eq (h : Reads part s tree t) : t.depth = s.depth := by
  induction h with
  | literal | overflow | unexpected | tooDeep => rfl
  | closed _ _ _ _ ih => simp [ih]
  | unclosed _ _ _ _ _ ih => simp [ih]
  | operand _ _ ih => exact ih
  | chain _ _ _ _ ih_first ih_last => exact ih_last.trans ih_first

theorem Reads.found_suffix (h : Reads part s tree t) : s.found <:+ t.found := by
  induction h with
  | literal => exact List.suffix_rfl
  | overflow | unexpected | tooDeep => exact List.suffix_cons _ _
  | closed _ _ _ _ ih => exact ih
  | unclosed _ _ _ _ _ ih => exact ih.trans (List.suffix_cons _ _)
  | operand _ _ ih => exact ih
  | chain _ _ _ _ ih_first ih_last => exact ih_first.trans ih_last

/-! From the function to the relation. -/

theorem reads_chain {h : t.rest.length ≤ n} (first : Reads (.phrase level) s left t)
    (operands : ∀ u : Reader, u.rest.length < t.rest.length →
      Reads level.operand u (u.read level.operand).result.1 (u.read level.operand).result.2 ∧
        level.operand.IsOver (u.read level.operand).result.2) :
    Reads (.phrase level) s (Reader.chain level left t h).result.1
        (Reader.chain level left t h).result.2 ∧
      (Part.phrase level).IsOver (Reader.chain level left t h).result.2 := by
  -- on the length of the text left: the induction carries what the chain has come to so far
  induction size : t.rest.length using Nat.strongRecOn generalizing t left n with
  | ind k ih =>
    subst size
    cases next : t.operator? level with
    | none =>
      rw [Reader.result_chain_of_none next]
      exact ⟨first, first.isOver_of_operator? next⟩
    | some found =>
      obtain ⟨op, u⟩ := found
      rw [Reader.result_chain_of_some next]
      obtain ⟨hc, rfl, rfl⟩ := Reader.operator?_eq_some_iff.1 next
      have shorter := Reader.length_skip_of_next? hc
      have le := ((t.skip 1).read op.level.operand).length_le
      obtain ⟨last, isOver⟩ := operands (t.skip 1) (by omega)
      exact ih _ (by omega) (first.chain hc last isOver) (fun v hv => operands v (by omega)) rfl

theorem reads_literal (no_group : s.next? ≠ some '(') :
    Reads .factor s s.literal.result.1 s.literal.result.2 := by
  by_cases digit : s.digits = []
  · rw [Reader.result_literal_of_no_digit digit]
    exact .unexpected digit no_group
  · cases value : Decimal.toInt64? s.digits with
    | none =>
      rw [Reader.result_literal_of_overflow digit value]
      exact .overflow digit value
    | some v =>
      rw [Reader.result_literal digit value]
      exact .literal digit value

theorem reads_read (part : Part) (s : Reader) :
    Reads part s (s.read part).result.1 (s.read part).result.2 ∧
      part.IsOver (s.read part).result.2 := by
  induction size : 3 * s.rest.length + part.rank using Nat.strongRecOn generalizing part s with
  | ind k ih =>
    subst size
    cases part with
    | phrase level =>
      have rank := Part.rank_phrase level
      have le := (s.read level.operand).length_le
      obtain ⟨only, isOver⟩ := ih _ (by omega) level.operand s rfl
      rw [Reader.result_read_phrase]
      exact reads_chain (.operand only isOver) fun u hu => ih _ (by omega) level.operand u rfl
    | factor =>
      refine ⟨?_, Part.isOver_factor _⟩
      by_cases opens : s.next? = some '('
      · have shorter := Reader.length_skip_of_next? opens
        have opened := Reader.accept?_of_next? opens
        by_cases room : s.depth < s.limit
        · have rank := Part.expression.rank_le
          have smaller : 3 * (s.skip 1).rest.length + Part.expression.rank <
              3 * s.rest.length + Part.factor.rank := by omega
          obtain ⟨inner, isOver⟩ := ih _ smaller .expression (s.skip 1).openGroup rfl
          by_cases closes : ((s.skip 1).openGroup.read .expression).after.next? = some ')'
          · rw [Reader.result_read_factor_of_closed opened room (Reader.accept?_of_next? closes)]
            exact .closed opens room inner closes
          · rw [Reader.result_read_factor_of_unclosed opened room
              (Reader.accept?_of_next?_ne closes)]
            exact .unclosed opens room inner isOver closes
        · rw [Reader.result_read_factor_of_tooDeep opened (Nat.le_of_not_lt room)]
          exact .tooDeep opens (Nat.le_of_not_lt room)
      · rw [Reader.result_read_factor_of_literal (Reader.accept?_of_next?_ne opens)]
        exact reads_literal opens

/-! From the relation to the function: what is still to come after a reading that `Reads`
describes is the rest of the chain, if there is one. -/

/-- The result of reading a part once `tree` has been read of it and the reader is at `t`. -/
def Reader.resume (part : Part) (tree : Option Expr) (t : Reader) : Option Expr × Reader :=
  match part with
  | .phrase level => (Reader.chain level tree t (Nat.le_refl _)).result
  | .factor => (tree, t)

theorem Part.IsOver.resume_eq (isOver : part.IsOver t) : Reader.resume part tree t = (tree, t) := by
  cases part with
  | phrase level => exact Reader.result_chain_of_none isOver.operator?_eq_none
  | factor => rfl

theorem result_chain_eq_resume (f : Option Expr → Option Expr) {bound : Nat} {r : Reading bound}
    {h : r.after.rest.length ≤ n} (hr : r.result = (tree, t)) :
    (Reader.chain level (f r.tree) r.after h).result = Reader.resume (.phrase level) (f tree) t := by
  cases hr
  exact Reader.result_chain_congr _ _

theorem Reads.result_read (h : Reads part s tree t) :
    (s.read part).result = Reader.resume part tree t := by
  induction h with
  | literal digit value =>
    have no_group := Reader.next?_ne_paren_of_digits_ne_nil digit
    rw [Reader.result_read_factor_of_literal (Reader.accept?_of_next?_ne no_group)]
    exact Reader.result_literal digit value
  | overflow digit large =>
    have no_group := Reader.next?_ne_paren_of_digits_ne_nil digit
    rw [Reader.result_read_factor_of_literal (Reader.accept?_of_next?_ne no_group)]
    exact Reader.result_literal_of_overflow digit large
  | unexpected no_digit no_group =>
    rw [Reader.result_read_factor_of_literal (Reader.accept?_of_next?_ne no_group)]
    exact Reader.result_literal_of_no_digit no_digit
  | tooDeep opens deep =>
    exact Reader.result_read_factor_of_tooDeep (Reader.accept?_of_next? opens) deep
  | closed opens room inner closes ih =>
    obtain ⟨rfl, rfl⟩ := Prod.mk.inj (ih.trans (Part.isOver_of_next?_close closes).resume_eq)
    exact Reader.result_read_factor_of_closed (Reader.accept?_of_next? opens) room
      (Reader.accept?_of_next? closes)
  | unclosed opens room inner isOver no_close ih =>
    obtain ⟨rfl, rfl⟩ := Prod.mk.inj (ih.trans isOver.resume_eq)
    exact Reader.result_read_factor_of_unclosed (Reader.accept?_of_next? opens) room
      (Reader.accept?_of_next?_ne no_close)
  | operand only isOver ih =>
    rw [Reader.result_read_phrase]
    exact result_chain_eq_resume id (ih.trans isOver.resume_eq)
  | @chain op _ t _ left _ first next last isOver ih_first ih_last =>
    have found := Reader.operator?_eq_some_iff.2 ⟨next, rfl, rfl⟩
    rw [ih_first, Reader.resume, Reader.result_chain_of_some found]
    exact result_chain_eq_resume (Expr.combine? op left) (ih_last.trans isOver.resume_eq)

theorem reads_iff :
    (s.read part).result = (tree, t) ↔ Reads part s tree t ∧ part.IsOver t := by
  refine ⟨?_, ?_⟩
  · intro h
    have := reads_read part s
    rwa [h] at this
  · rintro ⟨h, isOver⟩
    rw [h.result_read, isOver.resume_eq]

/-! The whole session. -/

theorem Reader.diagnostics_reportRest_eq_nil_iff :
    s.reportRest.diagnostics = [] ↔ s.rest = [] ∧ s.found = [] := by
  unfold Reader.reportRest
  split <;> simp_all [Reader.diagnostics]

@[simp] theorem Reader.position_reportRest : s.reportRest.position = s.position := by
  unfold Reader.reportRest
  split <;> rfl

theorem Reader.outcome_of_reads (h : Reads .expression s.start tree t)
    (isOver : Part.expression.IsOver t) :
    s.outcome = ⟨tree, t.reportRest.diagnostics, t.position⟩ := by
  obtain ⟨rfl, rfl⟩ := Prod.mk.inj (reads_iff.2 ⟨h, isOver⟩)
  simp [Reader.outcome, Reader.readAll, Reader.start]

/-- Every outcome comes from a reading of an expression that no operator could carry on. -/
theorem Reader.exists_reads_outcome (s : Reader) : ∃ tree t, Reads .expression s.start tree t ∧
    Part.expression.IsOver t ∧ s.outcome = ⟨tree, t.reportRest.diagnostics, t.position⟩ := by
  obtain ⟨h, isOver⟩ := reads_read .expression s.start
  exact ⟨_, _, h, isOver, outcome_of_reads h isOver⟩

end ArithExpr
