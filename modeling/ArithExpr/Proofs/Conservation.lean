import ArithExpr.Lexeme
import ArithExpr.Proofs.NestingLimit
import ArithExpr.Proofs.RoundTrip

/-! Recovery loses nothing: what a part takes off the text and what it finds wrong can be set off
against each other. Every opening parenthesis is closed, refused or missed, and every operator
stands between two operands, each of which is a number or a fault (`Balances`). A tree has no more
nodes than the operators leave room for, and as many if nothing was wrong but unclosed groups. -/

namespace ArithExpr

def Lexeme.isNumber : Lexeme → Bool
  | number _ => true
  | mark _ => false

def Diagnostic.isUnexpected : Diagnostic → Bool
  | unexpectedCharacter .. => true
  | _ => false

/-- The number of runs of digits. -/
def numbers (text : List Char) : Nat := (Lexeme.ofText text).countP Lexeme.isNumber

/-- The number of operators. -/
def operators (text : List Char) : Nat :=
  text.countP fun c => (Operator.ofSymbol? c).isSome

/-- A character that can stand in an expression. -/
def IsExprChar (c : Char) : Prop := c.isDigit ∨ (∃ op : Operator, c = op.symbol) ∨ c = '(' ∨ c = ')'

/-- The text that was taken and the diagnostics account for each other. -/
structure Balances (text : List Char) (ds : List Diagnostic) : Prop where
  characters : ∀ c ∈ text, IsExprChar c
  groups : text.count '(' = text.count ')' + ds.countP Diagnostic.isTooDeep +
    ds.countP Diagnostic.isUnclosedGroup
  operands : numbers text + ds.countP Diagnostic.isUnexpected + ds.countP Diagnostic.isTooDeep =
    operators text + 1

variable {digits text left right : List Char} {c : Char} {ds es : List Diagnostic}

/-! What is counted in a text, mark by mark. -/

theorem numbers_digits (nonempty : digits ≠ []) (digit : ∀ c ∈ digits, c.isDigit) :
    numbers digits = 1 := by
  rw [numbers, Lexeme.ofText_digits nonempty digit]
  rfl

theorem numbers_mark (no_digit : ¬ c.isDigit) (left right : List Char) :
    numbers (left ++ c :: right) = numbers left + numbers right := by
  rw [numbers, Lexeme.ofText_mark no_digit, List.countP_append, List.countP_cons_of_neg]
  · rfl
  · exact Bool.false_ne_true

example : numbers "(007+1)*23".toList = 3 := by decide

theorem numbers_open (text : List Char) : numbers ('(' :: text) = numbers text :=
  (numbers_mark (by decide) [] text).trans (Nat.zero_add _)

theorem numbers_parens (text : List Char) : numbers ('(' :: text ++ [')']) = numbers text :=
  (numbers_mark (by decide) ('(' :: text) []).trans (numbers_open text)

theorem numbers_minus (text : List Char) : numbers ('-' :: text) = numbers text :=
  (numbers_mark (by decide) [] text).trans (Nat.zero_add _)

theorem operators_digits (digit : ∀ c ∈ digits, c.isDigit) : operators digits = 0 := by
  refine List.countP_eq_zero.2 fun c hc operator => ?_
  obtain ⟨op, hop⟩ := Option.isSome_iff_exists.1 operator
  rw [Operator.ofSymbol?_eq_some_iff.1 hop] at hc
  exact op.not_isDigit_symbol (digit _ hc)

theorem operators_open (text : List Char) : operators ('(' :: text) = operators text :=
  List.countP_cons_of_neg (by decide)

theorem operators_parens (text : List Char) :
    operators ('(' :: text ++ [')']) = operators text := by
  rw [operators, List.countP_append, ← operators, operators_open]
  rfl

theorem operators_chain (left right : List Char) (op : Operator) :
    operators (left ++ op.symbol :: right) = operators left + operators right + 1 := by
  rw [operators, List.countP_append, List.countP_cons_of_pos (by simp)]
  rfl

theorem operators_minus (text : List Char) : operators ('-' :: text) = operators text + 1 :=
  List.countP_cons_of_pos (by decide)

theorem count_open (text : List Char) :
    ('(' :: text).count '(' = text.count '(' + 1 ∧ ('(' :: text).count ')' = text.count ')' :=
  ⟨List.count_cons_self, List.count_cons_of_ne (by decide)⟩

theorem count_parens (text : List Char) :
    ('(' :: text ++ [')']).count '(' = text.count '(' + 1 ∧
      ('(' :: text ++ [')']).count ')' = text.count ')' + 1 := by
  obtain ⟨opening, closing⟩ := count_open text
  rw [List.count_append, List.count_append, opening, closing]
  exact ⟨rfl, rfl⟩

namespace Balances

variable {position limit : Nat} {found : Option Char}

theorem of_digits (nonempty : digits ≠ []) (digit : ∀ c ∈ digits, c.isDigit)
    (quiet : ds.countP Diagnostic.isUnexpected = 0 ∧ ds.countP Diagnostic.isTooDeep = 0 ∧
      ds.countP Diagnostic.isUnclosedGroup = 0) : Balances digits ds := by
  obtain ⟨unexpected, tooDeep, unclosed⟩ := quiet
  obtain ⟨opening, closing⟩ :=
    count_eq_zero_of_plain fun c hc => plain_of_isDigit (digit c hc)
  refine ⟨fun c hc => .inl (digit c hc), ?_, ?_⟩
  · rw [opening, closing, tooDeep, unclosed]
  · rw [numbers_digits nonempty digit, operators_digits digit, unexpected, tooDeep]

theorem unexpected : Balances [] [.unexpectedCharacter found position] := ⟨by simp, rfl, rfl⟩

theorem tooDeep : Balances ['('] [.tooDeep limit position] :=
  ⟨by simp [IsExprChar], rfl, rfl⟩

theorem closed (h : Balances text ds) : Balances ('(' :: text ++ [')']) ds where
  characters := by
    have inner := h.characters
    simp only [List.cons_append, List.mem_cons, List.mem_append, List.not_mem_nil, or_false]
    rintro c (rfl | hc | rfl)
    · exact .inr (.inr (.inl rfl))
    · exact inner c hc
    · exact .inr (.inr (.inr rfl))
  groups := by
    obtain ⟨opening, closing⟩ := count_parens text
    rw [opening, closing, h.groups]
    omega
  operands := by
    rw [numbers_parens, operators_parens]
    exact h.operands

theorem unclosed (h : Balances text ds) :
    Balances ('(' :: text) (ds ++ [.unclosedGroup position]) where
  characters := by
    intro c hc
    rcases List.mem_cons.1 hc with rfl | hc
    · exact .inr (.inr (.inl rfl))
    · exact h.characters c hc
  groups := by
    obtain ⟨opening, closing⟩ := count_open text
    rw [opening, closing, h.groups, List.countP_append, List.countP_append]
    rfl
  operands := by
    rw [numbers_open, operators_open]
    simpa [List.countP_append, Diagnostic.isUnexpected, Diagnostic.isTooDeep] using h.operands

theorem chain (hl : Balances left ds) (op : Operator) (hr : Balances right es) :
    Balances (left ++ op.symbol :: right) (ds ++ es) where
  characters := by
    intro c hc
    rcases List.mem_append.1 hc with hc | hc
    · exact hl.characters c hc
    rcases List.mem_cons.1 hc with rfl | hc
    · exact .inr (.inl ⟨op, rfl⟩)
    · exact hr.characters c hc
  groups := by
    have groups_left := hl.groups
    have groups_right := hr.groups
    obtain ⟨no_open, no_close⟩ := op.symbol_plain
    simp only [List.count_append, List.countP_append]
    rw [List.count_cons_of_ne no_open, List.count_cons_of_ne no_close]
    omega
  operands := by
    have operands_left := hl.operands
    have operands_right := hr.operands
    rw [numbers_mark op.not_isDigit_symbol, operators_chain, List.countP_append, List.countP_append]
    omega

end Balances

variable {part : Part} {limit opened position : Nat} {next : Option Char} {tree : Option Expr}
  {e : Expr}

theorem Salvages.balances (h : Salvages limit part opened position text next tree ds) :
    Balances text ds := by
  induction h with
  | literal nonempty digit => exact .of_digits nonempty digit ⟨rfl, rfl, rfl⟩
  | overflow nonempty digit => exact .of_digits nonempty digit ⟨rfl, rfl, rfl⟩
  | unexpected => exact .unexpected
  | tooDeep => exact .tooDeep
  | closed _ _ ih => exact ih.closed
  | unclosed _ _ _ _ ih => exact ih.unclosed
  | operand _ _ ih => exact ih
  | @chain op _ _ _ _ _ _ _ _ _ _ _ _ ih_first ih_last => exact ih_first.chain op ih_last

/-- In a text that is read without fault there is one number more than there are operators. -/
theorem operands_of_isClean {text : String} {limit : Nat} (h : (parse text limit).IsClean) :
    numbers text.toList = operators text.toList + 1 := by
  obtain ⟨taken, more, tree, ds, rfl, salvages, ends⟩ := exists_salvages_parse text limit
  have faultless := h.2
  rw [parse_eq_of_salvages salvages ends] at faultless
  obtain ⟨rfl, all_taken⟩ := List.append_eq_nil_iff.1 faultless
  rw [Diagnostic.leftover_eq_nil_iff.1 all_taken, String.toList_ofList, List.append_nil]
  exact salvages.balances.operands

/-! The nodes of the tree. -/

theorem Salvages.size_le (h : Salvages limit part opened position text next tree ds) :
    ∀ e, tree = some e → e.size ≤ 2 * operators text + 1 := by
  induction h with
  | literal =>
    rintro e ⟨⟩
    exact Nat.le_add_left _ _
  | overflow | unexpected | tooDeep => rintro e ⟨⟩
  | @closed _ _ text _ _ _ _ _ ih =>
    rw [operators_parens]
    exact ih
  | @unclosed _ _ text _ _ _ _ _ _ _ ih =>
    rw [operators_open]
    exact ih
  | operand _ _ ih => exact ih
  | @chain op _ _ left right _ _ _ _ _ _ _ _ ih_first ih_last =>
    intro e he
    rw [operators_chain]
    rcases Expr.combine?_eq_some he with ⟨l, r, rfl, rfl, rfl⟩ | rfl
    · have size_left := ih_first l rfl
      have size_right := ih_last r rfl
      rw [Expr.size_binary]
      omega
    · have size_left := ih_first e rfl
      omega

/-- If nothing was wrong but unclosed groups, no operand was lost. -/
theorem Salvages.exists_size_eq (h : Salvages limit part opened position text next tree ds)
    (sound : ∀ d ∈ ds, d.isUnclosedGroup) :
    ∃ e, tree = some e ∧ e.size = 2 * operators text + 1 := by
  induction h with
  | @literal _ _ digits _ v _ digit =>
    refine ⟨_, rfl, ?_⟩
    rw [operators_digits digit]
    rfl
  | overflow | unexpected | tooDeep => exact absurd (sound _ List.mem_cons_self) Bool.false_ne_true
  | @closed _ _ text _ _ _ _ _ ih =>
    rw [operators_parens]
    exact ih sound
  | @unclosed _ _ text _ _ _ _ _ _ _ ih =>
    rw [operators_open]
    exact ih fun d hd => sound d (List.mem_append_left _ hd)
  | operand _ _ ih => exact ih sound
  | @chain op _ _ left right _ _ _ _ _ _ _ _ ih_first ih_last =>
    obtain ⟨l, rfl, size_left⟩ := ih_first fun d hd => sound d (List.mem_append_left _ hd)
    obtain ⟨r, rfl, size_right⟩ := ih_last fun d hd => sound d (List.mem_append_right _ hd)
    refine ⟨.binary op l r, rfl, ?_⟩
    rw [operators_chain, Expr.size_binary, size_left, size_right]
    omega

/-- Wherever a part is read, whatever was called before, the text that it takes and the diagnostics
that it adds account for each other, and so does the size of the tree. -/
theorem reading_conserves (part : Part) (s : Reader) :
    ∃ text ds, s.Takes (s.read part).after text ds ∧ Balances text ds ∧
      ∀ e, (s.read part).tree = some e → e.size ≤ 2 * operators text + 1 ∧
        ((∀ d ∈ ds, d.isUnclosedGroup) → e.size = 2 * operators text + 1) := by
  obtain ⟨read, -⟩ := reads_read part s
  obtain ⟨text, ds, takes, salvages⟩ := read.salvages
  refine ⟨text, ds, takes, salvages.balances, ?_⟩
  intro e he
  refine ⟨salvages.size_le e he, ?_⟩
  intro sound
  obtain ⟨e', he', size⟩ := salvages.exists_size_eq sound
  obtain rfl : e' = e := Option.some.inj (he'.symm.trans he)
  exact size

end ArithExpr
