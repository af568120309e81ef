import Mathlib.Data.List.TakeWhile
import ArithExpr.Reader.Session

/-! The small steps of a reader in one form. Taking a character, an operator or a run of digits is
skipping some characters, so a reader after several steps is told by how many it has skipped. -/

namespace ArithExpr

namespace Reader

/-- The reader after the next `n` characters. -/
def skip (s : Reader) (n : Nat) : Reader :=
  { s with rest := s.rest.drop n, position := s.position + n }

/-- The reader once the log says that a whole text is going to be read. -/
def start (s : Reader) : Reader := s.note (.started (s.position + s.rest.length))

variable {s t : Reader} {c : Char} {level : Level} {op : Operator} {text more : List Char}

/-! What each step changes. -/

@[simp] theorem rest_skip (n : Nat) : (s.skip n).rest = s.rest.drop n := rfl

@[simp] theorem position_skip (n : Nat) : (s.skip n).position = s.position + n := rfl

@[simp] theorem depth_skip (n : Nat) : (s.skip n).depth = s.depth := rfl

@[simp] theorem limit_skip (n : Nat) : (s.skip n).limit = s.limit := rfl

@[simp] theorem found_skip (n : Nat) : (s.skip n).found = s.found := rfl

@[simp] theorem position_report (d : Diagnostic) : (s.report d).position = s.position := rfl

@[simp] theorem depth_report (d : Diagnostic) : (s.report d).depth = s.depth := rfl

@[simp] theorem limit_report (d : Diagnostic) : (s.report d).limit = s.limit := rfl

@[simp] theorem found_report (d : Diagnostic) : (s.report d).found = d :: s.found := rfl

@[simp] theorem position_openGroup : s.openGroup.position = s.position := rfl

@[simp] theorem depth_openGroup : s.openGroup.depth = s.depth + 1 := rfl

@[simp] theorem limit_openGroup : s.openGroup.limit = s.limit := rfl

@[simp] theorem found_openGroup : s.openGroup.found = s.found := rfl

@[simp] theorem position_closeGroup : s.closeGroup.position = s.position := rfl

@[simp] theorem depth_closeGroup : s.closeGroup.depth = s.depth - 1 := rfl

@[simp] theorem limit_closeGroup : s.closeGroup.limit = s.limit := rfl

@[simp] theorem found_closeGroup : s.closeGroup.found = s.found := rfl

@[simp] theorem rest_start : s.start.rest = s.rest := rfl

@[simp] theorem position_start : s.start.position = s.position := rfl

@[simp] theorem depth_start : s.start.depth = s.depth := rfl

@[simp] theorem limit_start : s.start.limit = s.limit := rfl

@[simp] theorem found_start : s.start.found = s.found := rfl

@[simp] theorem position_note (e : Event) : (s.note e).position = s.position := rfl

/-! Steps as skips. -/

theorem advance_of_next? (h : s.next? = some c) : s.advance = s.skip 1 := by
  obtain ⟨rest, hr⟩ := List.head?_eq_some_iff.1 h
  simp [advance, skip, hr]

theorem accept?_of_next? (h : s.next? = some c) : s.accept? c = some (s.skip 1) := by
  unfold accept?
  rw [if_pos h, advance_of_next? h]

theorem accept?_of_next?_ne (h : s.next? ≠ some c) : s.accept? c = none := if_neg h

theorem accept?_eq_some_iff : s.accept? c = some t ↔ s.next? = some c ∧ t = s.skip 1 := by
  by_cases h : s.next? = some c
  · rw [accept?_of_next? h]
    simp [h, eq_comm]
  · simp [accept?_of_next?_ne h, h]

theorem operator?_eq_some_iff : s.operator? level = some (op, t) ↔
    s.next? = some op.symbol ∧ op.level = level ∧ t = s.skip 1 := by
  refine ⟨?_, ?_⟩
  · intro h
    unfold operator? at h
    split at h
    · rename_i op' found
      obtain ⟨c, hc, hop⟩ := Option.bind_eq_some_iff.1 found
      rw [Operator.ofSymbol?_eq_some_iff] at hop
      subst hop
      split at h
      · rename_i same
        cases h
        exact ⟨hc, same, advance_of_next? hc⟩
      · cases h
    · cases h
  · rintro ⟨hc, rfl, rfl⟩
    simp [operator?, hc, advance_of_next? hc]

theorem operator?_eq_none_iff :
    s.operator? level = none ↔ ∀ op : Operator, s.next? = some op.symbol → op.level ≠ level := by
  refine ⟨?_, ?_⟩
  · intro h op hc same
    have := operator?_eq_some_iff.2 ⟨hc, same, rfl⟩
    rw [h] at this
    cases this
  · intro h
    cases found : s.operator? level with
    | none => rfl
    | some next =>
      obtain ⟨hc, same, -⟩ := operator?_eq_some_iff.1 found
      exact absurd same (h _ hc)

theorem length_skip_of_next? (h : s.next? = some c) :
    (s.skip 1).rest.length + 1 = s.rest.length := by
  rw [← advance_of_next? h]
  exact length_advance_of_next? h

theorem rest_of_next? (h : s.next? = some c) : s.rest = c :: s.rest.drop 1 := by
  obtain ⟨rest, hr⟩ := List.head?_eq_some_iff.1 h
  simp [hr]

@[simp] theorem skip_zero (s : Reader) : s.skip 0 = s := rfl

@[simp] theorem skip_skip (s : Reader) (m n : Nat) : (s.skip m).skip n = s.skip (m + n) := by
  simp [skip, Nat.add_assoc]

/-- Opening a group, reading a text and closing the group comes to reading all of it. -/
theorem close_skip_open (s : Reader) (m n k : Nat) :
    (((s.skip m).openGroup.skip n).closeGroup).skip k = s.skip (m + n + k) := by
  simp [skip, openGroup, closeGroup, Nat.add_assoc]

theorem rest_skip_of_eq_append (h : s.rest = text ++ more) : (s.skip text.length).rest = more := by
  simp [h]

/-! Runs of digits. -/

theorem dropWhile_isDigit_rest : s.rest.dropWhile Char.isDigit = s.rest.drop s.digits.length :=
  calc s.rest.dropWhile Char.isDigit
      = (s.digits ++ s.rest.dropWhile Char.isDigit).drop s.digits.length := List.drop_left.symm
    _ = s.rest.drop s.digits.length := by rw [digits, List.takeWhile_append_dropWhile]

theorem skipDigits_eq : s.skipDigits = s.skip s.digits.length := by
  simp [skipDigits, skip, dropWhile_isDigit_rest]

theorem next?_of_digits_ne_nil (h : s.digits ≠ []) : ∃ c, s.next? = some c ∧ c.isDigit := by
  unfold digits at h
  cases hr : s.rest with
  | nil => simp [hr] at h
  | cons c rest =>
    refine ⟨c, by simp [next?, hr], ?_⟩
    by_contra no_digit
    simp [hr, no_digit] at h

theorem next?_ne_paren_of_digits_ne_nil (h : s.digits ≠ []) : s.next? ≠ some '(' := by
  obtain ⟨c, hc, digit⟩ := next?_of_digits_ne_nil h
  rw [hc]
  rintro ⟨⟩
  exact absurd digit (by decide)

/-- The digits at the front, and what follows them. -/
theorem rest_eq_digits_append : s.rest = s.digits ++ s.rest.drop s.digits.length := by
  rw [← dropWhile_isDigit_rest, digits, List.takeWhile_append_dropWhile]

theorem isDigit_of_mem_digits : ∀ c ∈ s.digits, c.isDigit :=
  fun _ h => List.mem_takeWhile_imp h

theorem not_isDigit_head?_dropWhile (text : List Char) :
    ∀ c ∈ (text.dropWhile Char.isDigit).head?, ¬ c.isDigit := by
  intro c hc digit
  have := List.head?_dropWhile_not Char.isDigit text
  simp_all

theorem not_isDigit_after_digits (s : Reader) :
    ∀ c ∈ (s.rest.drop s.digits.length).head?, ¬ c.isDigit := by
  rw [← dropWhile_isDigit_rest]
  exact not_isDigit_head?_dropWhile s.rest

theorem digits_of_eq_append (h : s.rest = text ++ more) (digit : ∀ c ∈ text, c.isDigit)
    (ends : ∀ c ∈ more.head?, ¬ c.isDigit) : s.digits = text := by
  unfold digits
  rw [h, Decimal.takeWhile_isDigit_append digit ends]

/-! Where the calls that read no part leave the reader. -/

theorem after_integer (s : Reader) : (s.perform .integer).2 = s.skip s.digits.length :=
  s.skipDigits_eq

theorem after_accept (s : Reader) (c : Char) : (s.perform (.accept c)).2 = s ∨
    s.next? = some c ∧ (s.perform (.accept c)).2 = s.skip 1 := by
  cases taken : s.accept? c with
  | none => simp [perform, taken]
  | some t =>
    obtain ⟨next, rfl⟩ := accept?_eq_some_iff.1 taken
    simp [perform, taken, next]

end Reader

end ArithExpr
