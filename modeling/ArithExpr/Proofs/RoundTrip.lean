import ArithExpr.Proofs.Sentences

/-! The text of a tree reads as the tree, and which trees that holds for. Two facts meet here: the
text of a tree without negative literals spells the tree, in every place where the tree can stand
(`Expr.spells_chars`), and a tree that comes out of any reading, whatever was wrong with its text,
has no negative literals and keeps within the limit (`Reads.fits`). -/

namespace ArithExpr

namespace Expr

/-- The values of the literals, from left to right. -/
def literals : Expr → List Int64
  | literal v => [v]
  | binary _ l r => l.literals ++ r.literals

/-- The text of a tree where this part is due: in parentheses if the operator is too loose. -/
def charsAs (part : Part) (e : Expr) : List Char :=
  groupIf (e.precedence < part.precedence) e.chars

theorem charsAs_of_le {part : Part} {e : Expr} (h : part.precedence ≤ e.precedence) :
    e.charsAs part = e.chars := by
  simp [charsAs, Nat.not_lt.2 h]

theorem charsAs_of_lt {part : Part} {e : Expr} (h : e.precedence < part.precedence) :
    e.charsAs part = '(' :: e.chars ++ [')'] := by
  simp [charsAs, h]

theorem one_le_precedence (e : Expr) : 1 ≤ e.precedence := by
  cases e with
  | literal v => exact Nat.le_add_left 1 2
  | binary op l r => cases op <;> exact Nat.le_add_left 1 _

theorem charsAs_expression (e : Expr) : e.charsAs .expression = e.chars :=
  charsAs_of_le e.one_le_precedence

/-- Each operand of an operator is written as the part that is due on its side. -/
theorem chars_binary (op : Operator) (l r : Expr) : (binary op l r).chars =
    l.charsAs (.phrase op.level) ++ op.symbol :: r.charsAs op.level.operand := by
  simp only [chars, charsAs, Part.precedence_operand, Part.precedence_phrase, Nat.lt_succ_iff]
  rfl

theorem balanced_charsAs (part : Part) (e : Expr) : Balanced (e.charsAs part) :=
  balanced_groupIf e.balanced_chars _

end Expr

variable {part tight loose : Part} {e l r : Expr} {limit opened : Nat} {text : List Char}

/-! The text of a tree spells the tree. -/

theorem Spells.loosen (h : Spells tight text e) (le : loose.precedence ≤ tight.precedence) :
    Spells loose text e := by
  rcases loose with (_ | _) | _ <;> rcases tight with (_ | _) | _
  case phrase.additive.phrase.additive => exact h
  case phrase.additive.phrase.multiplicative => exact .operand h
  case phrase.additive.factor => exact .operand (Spells.operand h : Spells .term text e)
  case phrase.multiplicative.phrase.multiplicative => exact h
  case phrase.multiplicative.factor => exact .operand h
  case factor.factor => exact h
  all_goals exact absurd le (by decide)

theorem Decimal.spells_ofInt {v : Int64} (h : 0 ≤ v) :
    Spells .factor (Decimal.ofInt v.toInt) (.literal v) := by
  have nonneg : 0 ≤ v.toInt := Int64.le_iff_toInt_le.1 h
  rw [Decimal.ofInt_of_nonneg nonneg]
  refine .literal Nat.toDigits_ne_nil (fun c => Decimal.isDigit_of_mem_toDigits) ?_
  rw [Decimal.toInt64?_eq_some_iff, Decimal.value_toDigits]
  omega

theorem Expr.spells_chars (h : ∀ v ∈ e.literals, 0 ≤ v) (part : Part) :
    Spells part (e.charsAs part) e := by
  induction e generalizing part with
  | literal v =>
    rw [charsAs_of_le part.precedence_le]
    exact (Decimal.spells_ofInt (h v (by simp [literals]))).loosen part.precedence_le
  | binary op l r ihl ihr =>
    have chain : Spells (.phrase op.level) (binary op l r).chars (binary op l r) := by
      rw [chars_binary]
      exact .chain (ihl (fun v hv => h v (by simp [literals, hv])) _)
        (ihr (fun v hv => h v (by simp [literals, hv])) _)
    by_cases grouped : (binary op l r).precedence < part.precedence
    · rw [charsAs_of_lt grouped]
      have inner : Spells .expression (binary op l r).chars (binary op l r) :=
        chain.loosen (one_le_precedence (binary op l r))
      exact (Spells.group inner).loosen part.precedence_le
    · rw [charsAs_of_le (Nat.not_lt.1 grouped)]
      exact chain.loosen (Nat.not_lt.1 grouped)

/-! What any reading comes to. -/

/-- The tree can be written as this part where `opened` groups are open: it has no negative
literals, and with the parentheses that it needs there its text keeps within the limit. -/
structure Expr.Fits (limit opened : Nat) (part : Part) (e : Expr) : Prop where
  nonneg : ∀ v ∈ e.literals, 0 ≤ v
  nested : nesting opened (e.charsAs part) ≤ limit

namespace Expr.Fits

theorem binary {op : Operator} (hl : l.Fits limit opened (.phrase op.level))
    (hr : r.Fits limit opened op.level.operand) :
    (Expr.binary op l r).Fits limit opened (.phrase op.level) := by
  refine ⟨?_, ?_⟩
  · intro v hv
    rcases List.mem_append.1 hv with hv | hv
    · exact hl.nonneg v hv
    · exact hr.nonneg v hv
  · have le : (Part.phrase op.level).precedence ≤ (Expr.binary op l r).precedence := Nat.le_refl _
    have nested_l := hl.nested
    have nested_r := hr.nested
    rw [charsAs_of_le le, chars_binary, (balanced_charsAs _ l).nesting_chain]
    omega

theorem loosen (h : e.Fits limit opened tight) (le : loose.precedence ≤ tight.precedence) :
    e.Fits limit opened loose := by
  refine ⟨h.nonneg, Nat.le_trans ?_ h.nested⟩
  by_cases grouped : e.precedence < loose.precedence
  · rw [charsAs_of_lt grouped, charsAs_of_lt (Nat.lt_of_lt_of_le grouped le)]
  · rw [charsAs_of_le (Nat.not_lt.1 grouped)]
    by_cases grouped' : e.precedence < tight.precedence
    · rw [charsAs_of_lt grouped', e.balanced_chars.nesting_parens]
      exact nesting_mono (Nat.le_succ opened) _
    · rw [charsAs_of_le (Nat.not_lt.1 grouped')]

theorem group (h : e.Fits limit (opened + 1) .expression) : e.Fits limit opened .factor := by
  have nested := h.nested
  rw [charsAs_expression] at nested
  refine ⟨h.nonneg, Nat.le_trans ?_ nested⟩
  by_cases grouped : e.precedence < Part.factor.precedence
  · rw [charsAs_of_lt grouped, e.balanced_chars.nesting_parens]
  · rw [charsAs_of_le (Nat.not_lt.1 grouped)]
    exact nesting_mono (Nat.le_succ opened) _

theorem literal {v : Int64} (nonneg : 0 ≤ v) (room : opened ≤ limit) :
    (Expr.literal v).Fits limit opened .factor := by
  refine ⟨by simpa [literals] using nonneg, ?_⟩
  rw [charsAs_of_le (Nat.le_refl _), chars, nesting_eq_of_plain Decimal.plain_of_mem_ofInt]
  exact room

end Expr.Fits

variable {s t : Reader} {tree left right : Option Expr}

theorem Expr.combine?_eq_some {op : Operator} (h : Expr.combine? op left right = some e) :
    (∃ l r, left = some l ∧ right = some r ∧ e = .binary op l r) ∨ left = some e := by
  cases left <;> cases right <;> simp_all [Expr.combine?, eq_comm]

/-- Whatever a text is read as, with faults or without, can be written where it was read. -/
theorem Reads.fits (h : Reads part s tree t) (room : s.depth ≤ s.limit) :
    ∀ e, tree = some e → e.Fits s.limit s.depth part := by
  induction h with
  | literal digit value =>
    rintro e ⟨⟩
    refine .literal (Int64.le_iff_toInt_le.2 ?_) room
    rw [Decimal.toInt64?_eq_some_iff.1 value]
    exact Int.natCast_nonneg _
  | overflow | unexpected | tooDeep => rintro e ⟨⟩
  | closed _ below _ _ ih => exact fun e he => (ih (Nat.succ_le_of_lt below) e he).group
  | unclosed _ below _ _ _ ih => exact fun e he => (ih (Nat.succ_le_of_lt below) e he).group
  | @operand level _ _ _ _ _ ih =>
    refine fun e he => (ih room e he).loosen ?_
    rw [Part.precedence_operand]
    exact Nat.le_succ _
  | chain first _ last _ ih_first ih_last =>
    intro e he
    rcases Expr.combine?_eq_some he with ⟨l, r, rfl, rfl, rfl⟩ | rfl
    · have depth := first.depth_eq
      have limit := first.limit_eq
      simp only [Reader.depth_skip, Reader.limit_skip, depth, limit] at ih_last
      exact (ih_first room l rfl).binary (ih_last room r rfl)
    · exact ih_first room e rfl

theorem fits_of_root_eq_some {text : String} (h : (parse text limit).root = some e) :
    e.Fits limit 0 .expression := by
  obtain ⟨tree, t, read, -, outcome⟩ := (Reader.ofChars text.toList limit).exists_reads_outcome
  unfold parse at h
  rw [outcome] at h
  exact read.fits (Nat.zero_le _) e h

theorem Expr.Fits.parse_toString (h : e.Fits limit 0 .expression) :
    parse (toString e) limit = ⟨some e, [], (toString e).length⟩ := by
  have spells := Expr.spells_chars h.nonneg .expression
  have nested := h.nested
  rw [Expr.charsAs_expression, ← Expr.toList_toString] at spells nested
  exact parse_of_spells spells nested

/-- The trees that their own texts are read as, under a limit: those without negative literals
whose texts keep within the limit. Their texts are also without fault. -/
theorem parse_toString_iff (e : Expr) (limit : Nat) :
    ((parse (toString e) limit).root = some e ↔
        (∀ v ∈ e.literals, 0 ≤ v) ∧ nesting 0 (toString e).toList ≤ limit) ∧
      (parse (toString e) limit = ⟨some e, [], (toString e).length⟩ ↔
        (∀ v ∈ e.literals, 0 ≤ v) ∧ nesting 0 (toString e).toList ≤ limit) := by
  have fits_iff : e.Fits limit 0 .expression ↔
      (∀ v ∈ e.literals, 0 ≤ v) ∧ nesting 0 (toString e).toList ≤ limit := by
    rw [Expr.toList_toString, ← Expr.charsAs_expression]
    exact ⟨fun h => ⟨h.nonneg, h.nested⟩, fun h => ⟨h.1, h.2⟩⟩
  rw [← fits_iff]
  refine ⟨?_, ?_⟩
  · exact ⟨fits_of_root_eq_some, fun h => congrArg Outcome.root h.parse_toString⟩
  · exact ⟨fun h => fits_of_root_eq_some (congrArg Outcome.root h), fun h => h.parse_toString⟩

end ArithExpr
