import Mathlib.Data.List.Induction
import ArithExpr.Lexeme
import ArithExpr.Proofs.Repair
import ArithExpr.Proofs.RoundTrip

/-! What a recovered tree has to do with its text. Its own text can be read back, and it has nothing
in it that the text had not: no literal, no operator and no group, in no other order. What can be
missing is what the reading had to drop, and what the tree does not need, parentheses around what
binds tightly enough and zeros in front of a literal. So the text of a tree is the shortest one that
is read as the tree without fault, and no other is as short. -/

namespace ArithExpr

open scoped List

namespace Decimal

theorem ofInt_natCast (n : Nat) : ofInt n = Nat.toDigits 10 n :=
  ofInt_of_nonneg (Int.natCast_nonneg n)

theorem digitChar_of_isDigit {c : Char} (h : c.isDigit) :
    c.toNat - '0'.toNat < 10 ∧ Nat.digitChar (c.toNat - '0'.toNat) = c := by
  have bounds : 48 ≤ c.toNat ∧ c.toNat ≤ 57 := Char.isDigit_iff_toNat.1 h
  have small : c.toNat - 48 < 10 := by omega
  have same : (Nat.digitChar (c.toNat - 48)).toNat = c.toNat := by
    rw [Nat.toNat_digitChar_of_lt_ten small]
    omega
  exact ⟨small, Char.toNat_inj.1 same⟩

/-- The digits of a value are those of any way to write it, less zeros in front. -/
theorem toDigits_value_suffix {digits : List Char} (nonempty : digits ≠ [])
    (digit : ∀ c ∈ digits, c.isDigit) : Nat.toDigits 10 (value digits) <:+ digits := by
  -- on the last digit: it is the last one of the value, too
  induction digits using List.reverseRecOn with
  | nil => exact absurd rfl nonempty
  | append_singleton digits c ih =>
    obtain ⟨small, last⟩ := digitChar_of_isDigit (digit c (by simp))
    rw [value_append_singleton, Nat.toDigits_eq_if (by decide)]
    split
    · rename_i single
      have zero : value digits = 0 := by omega
      rw [zero, Nat.mul_zero, Nat.zero_add, last]
      exact List.suffix_append _ _
    · rename_i several
      have more : digits ≠ [] := by
        rintro rfl
        exact several (by simpa [value] using small)
      obtain ⟨zeros, front⟩ := ih more fun d hd => digit d (by simp [hd])
      rw [Nat.mul_add_mod, Nat.mod_eq_of_lt small, last, Nat.mul_add_div (by decide),
        Nat.div_eq_of_lt small, Nat.add_zero]
      exact ⟨zeros, by rw [← List.append_assoc, front]⟩

theorem ofInt_sublist {digits : List Char} {v : Int64} (nonempty : digits ≠ [])
    (digit : ∀ c ∈ digits, c.isDigit) (value : toInt64? digits = some v) :
    ofInt v.toInt <+ digits := by
  rw [toInt64?_eq_some_iff.1 value, ofInt_natCast]
  exact (toDigits_value_suffix nonempty digit).sublist

end Decimal

theorem Lexeme.ofText_ofInt {digits : List Char} {v : Int64} (nonempty : digits ≠ [])
    (digit : ∀ c ∈ digits, c.isDigit) (value : Decimal.toInt64? digits = some v) :
    ofText (Decimal.ofInt v.toInt) = ofText digits := by
  rw [Decimal.toInt64?_eq_some_iff.1 value, Decimal.ofInt_natCast,
    ofText_digits Nat.toDigits_ne_nil fun c => Decimal.isDigit_of_mem_toDigits,
    Decimal.value_toDigits, ofText_digits nonempty digit]

/-! Views of a text. What holds of the characters of a text, and of its lexemes, is proved for any
view that takes texts apart at their marks. -/

/-- The view shows a mark, which is any character but a digit, apart from what stands around it, and
shows in a literal all that it would show in the digits of the value. -/
structure Piecewise {A : Type} (view : List Char → List A) : Prop where
  nil : view [] = []
  mark {c : Char} (no_digit : ¬ c.isDigit) (left right : List Char) :
    view (left ++ c :: right) = view left ++ (view [c] ++ view right)
  literal {digits : List Char} {v : Int64} (nonempty : digits ≠ [])
    (digit : ∀ c ∈ digits, c.isDigit) (value : Decimal.toInt64? digits = some v) :
    view (Decimal.ofInt v.toInt) <+ view digits

variable {A : Type} {view : List Char → List A} {part tight loose : Part} {e : Expr}
  {text left right : List Char} {limit opened position : Nat} {next : Option Char}
  {tree : Option Expr} {ds : List Diagnostic}

theorem piecewise_chars : Piecewise fun text : List Char => text where
  nil := rfl
  mark _ _ _ := rfl
  literal := Decimal.ofInt_sublist

theorem Lexeme.piecewise_ofText : Piecewise ofText where
  nil := rfl
  mark {c} no_digit left right := by
    have single : ofText [c] = [.mark c] := ofText_mark no_digit [] []
    rw [ofText_mark no_digit, single]
    rfl
  literal nonempty digit value := by rw [ofText_ofInt nonempty digit value]

namespace Piecewise

theorem filter (h : Piecewise view) (keep : A → Bool) :
    Piecewise fun text => (view text).filter keep where
  nil := by rw [h.nil, List.filter_nil]
  mark no_digit left right := by rw [h.mark no_digit, List.filter_append, List.filter_append]
  literal nonempty digit value := (h.literal nonempty digit value).filter keep

theorem operator (h : Piecewise view) (op : Operator) (left right : List Char) :
    view (left ++ op.symbol :: right) = view left ++ (view [op.symbol] ++ view right) :=
  h.mark (by cases op <;> decide) left right

theorem parens (h : Piecewise view) (text : List Char) :
    view ('(' :: text ++ [')']) = view ['('] ++ (view text ++ view [')']) := by
  have opening := h.mark (c := '(') (by decide) [] (text ++ [')'])
  have closing := h.mark (c := ')') (by decide) text []
  simp only [h.nil, List.nil_append, List.append_nil] at opening closing
  rw [← closing, ← opening]
  rfl

theorem sublist_parens (h : Piecewise view) (text : List Char) :
    view text <+ view ('(' :: text ++ [')']) := by
  rw [h.parens]
  exact (List.sublist_append_left _ _).trans (List.sublist_append_right _ _)

/-- Where a tree may be looser, its text shows no more. -/
theorem charsAs_sublist (h : Piecewise view) (e : Expr) (le : loose.precedence ≤ tight.precedence) :
    view (e.charsAs loose) <+ view (e.charsAs tight) := by
  by_cases grouped : e.precedence < tight.precedence
  · rw [Expr.charsAs_of_lt grouped]
    by_cases grouped' : e.precedence < loose.precedence
    · rw [Expr.charsAs_of_lt grouped']
    · rw [Expr.charsAs_of_le (Nat.not_lt.1 grouped')]
      exact h.sublist_parens _
  · have le_tight := Nat.not_lt.1 grouped
    rw [Expr.charsAs_of_le le_tight, Expr.charsAs_of_le (Nat.le_trans le le_tight)]

theorem charsAs_sublist_parens (h : Piecewise view) (e : Expr) (part : Part) :
    view (e.charsAs part) <+ view ('(' :: e.chars ++ [')']) := by
  by_cases grouped : e.precedence < part.precedence
  · rw [Expr.charsAs_of_lt grouped]
  · rw [Expr.charsAs_of_le (Nat.not_lt.1 grouped)]
    exact h.sublist_parens _

end Piecewise

/-- If every group was closed, the text of the tree shows nothing that the text read did not. -/
theorem Salvages.view_sublist (pw : Piecewise view)
    (h : Salvages limit part opened position text next tree ds)
    (closed : ∀ d ∈ ds, ¬ d.isUnclosedGroup) :
    ∀ e, tree = some e → view (e.charsAs part) <+ view text := by
  induction h with
  | @literal _ _ digits _ v nonempty digit _ value =>
    rintro e ⟨⟩
    rw [Expr.charsAs_of_le (Nat.le_refl _)]
    exact pw.literal nonempty digit value
  | overflow | unexpected | tooDeep => rintro e ⟨⟩
  | closed _ _ ih =>
    intro e he
    have inner := ih closed e he
    rw [Expr.charsAs_expression] at inner
    refine (pw.charsAs_sublist_parens e .factor).trans ?_
    rw [pw.parens, pw.parens]
    exact (inner.append_right _).append_left _
  | unclosed => exact absurd rfl (closed _ (List.mem_append_right _ List.mem_cons_self))
  | @operand level _ _ _ _ _ _ _ _ ih =>
    intro e he
    refine (pw.charsAs_sublist e ?_).trans (ih closed e he)
    rw [Part.precedence_operand]
    exact Nat.le_succ _
  | @chain op _ _ left right _ _ _ _ _ _ _ _ ih_first ih_last =>
    intro e he
    have ih_first := ih_first fun d hd => closed d (List.mem_append_left _ hd)
    have ih_last := ih_last fun d hd => closed d (List.mem_append_right _ hd)
    rw [pw.operator]
    rcases Expr.combine?_eq_some he with ⟨l, r, rfl, rfl, rfl⟩ | rfl
    · rw [Expr.charsAs_of_le (Nat.le_refl _), Expr.chars_binary, pw.operator]
      exact (ih_first l rfl).append ((ih_last r rfl).append_left _)
    · exact (ih_first e rfl).trans (List.sublist_append_left _ _)

/-! A text without fault keeps all but parentheses and zeros. -/

namespace Lexeme

theorem piecewise_ungrouped : Piecewise ungrouped := piecewise_ofText.filter _

theorem ungrouped_parens (text : List Char) :
    ungrouped ('(' :: text ++ [')']) = ungrouped text := by
  have opening : ungrouped ['('] = [] := by decide
  have closing : ungrouped [')'] = [] := by decide
  rw [piecewise_ungrouped.parens, opening, closing, List.nil_append, List.append_nil]

theorem ungrouped_charsAs (part : Part) (e : Expr) :
    ungrouped (e.charsAs part) = ungrouped e.chars := by
  by_cases grouped : e.precedence < part.precedence
  · rw [Expr.charsAs_of_lt grouped, ungrouped_parens]
  · rw [Expr.charsAs_of_le (Nat.not_lt.1 grouped)]

end Lexeme

theorem Spells.ungrouped_eq (h : Spells part text e) :
    Lexeme.ungrouped e.chars = Lexeme.ungrouped text := by
  induction h with
  | literal nonempty digit value =>
    exact congrArg (List.filter _) (Lexeme.ofText_ofInt nonempty digit value)
  | group _ ih => rw [Lexeme.ungrouped_parens, ih]
  | operand _ ih => exact ih
  | chain _ _ ih_first ih_last =>
    rw [Expr.chars_binary, Lexeme.piecewise_ungrouped.operator, Lexeme.piecewise_ungrouped.operator,
      Lexeme.ungrouped_charsAs, Lexeme.ungrouped_charsAs, ih_first, ih_last]

/-! Whole texts. -/

section

variable {text : String} (root : (parse text limit).root = some e)

include root

theorem view_sublist_repaired (pw : Piecewise view) :
    view (toString e).toList <+ view ((parse text limit).repaired text).toList := by
  have read := salvages_repaired text limit
  have kept := read.view_sublist pw (fun d => Diagnostic.not_unclosed_of_mem_mended) e root
  rwa [Expr.charsAs_expression, ← Expr.toList_toString] at kept

theorem spells_of_isClean (clean : (parse text limit).IsClean) :
    Spells .expression text.toList e ∧ parse text limit = ⟨some e, [], text.length⟩ := by
  obtain ⟨e', spells, room⟩ := exists_spells_of_diagnostics_eq_nil clean.2
  have whole := parse_of_spells spells room
  rw [whole] at root
  cases root
  exact ⟨spells, whole⟩

theorem repaired_of_isClean (clean : (parse text limit).IsClean) :
    (parse text limit).repaired text = text := by
  have all : text.toList.take text.length = text.toList :=
    List.take_of_length_le (Nat.le_of_eq String.length_toList)
  rw [(spells_of_isClean root clean).2]
  simp [Outcome.repaired, Outcome.unclosed, all]

theorem toString_sublist_of_isClean (clean : (parse text limit).IsClean) :
    (toString e).toList <+ text.toList := by
  have kept := view_sublist_repaired root piecewise_chars
  rwa [repaired_of_isClean root clean] at kept

theorem length_toString_lt_of_isClean (clean : (parse text limit).IsClean)
    (other : text ≠ toString e) : (toString e).length < text.length := by
  have kept := toString_sublist_of_isClean root clean
  by_contra longer
  rw [← String.length_toList, ← String.length_toList, Nat.not_lt] at longer
  exact other (String.toList_inj.1 (kept.eq_of_length_le longer).symm)

end

/-- Whatever tree a text is read as, with faults or without, its own text is read as that tree and
without fault under the same limit. In particular no literal of it is negative, and its text keeps
within the limit. -/
theorem recovered_tree_reads_back {text : String} (root : (parse text limit).root = some e) :
    parse (toString e) limit = ⟨some e, [], (toString e).length⟩ ∧
      (∀ v ∈ e.literals, 0 ≤ v) ∧ nesting 0 (toString e).toList ≤ limit := by
  have fits := fits_of_root_eq_some root
  have nested := fits.nested
  rw [Expr.charsAs_expression, ← Expr.toList_toString] at nested
  exact ⟨fits.parse_toString, fits.nonneg, nested⟩

/-- A group too deep and one left open; the text behind is not read. -/
theorem recovered_tree_reads_back_in_group :
    (parse "4-(03-2*(1" 1).root = some (.binary .sub (.literal 4)
        (.binary .sub (.literal 3) (.literal 2))) ∧
      parse "4-(3-2)" 1 = ⟨some (.binary .sub (.literal 4)
        (.binary .sub (.literal 3) (.literal 2))), [], 7⟩ := by
  have root : (parse "4-(03-2*(1" 1).root = some (.binary .sub (.literal 4)
      (.binary .sub (.literal 3) (.literal 2))) := by decide +kernel
  exact ⟨root, (recovered_tree_reads_back root).1⟩

/-- The text of a recovered tree is what was read of the text, with the closing parentheses that it
lacks, less some characters; seen as lexemes it is that less some lexemes, so that what is left of a
literal is its value. From a text without fault only parentheses and leading zeros are missing, and
no other text that is read as the tree without fault is as short as the tree's own. -/
theorem toString_sublist_of_root {text : String} (root : (parse text limit).root = some e) :
    (toString e).toList <+ ((parse text limit).repaired text).toList ∧
      Lexeme.ofText (toString e).toList <+
        Lexeme.ofText ((parse text limit).repaired text).toList ∧
      ((parse text limit).IsClean →
        (toString e).toList <+ text.toList ∧
          Lexeme.ungrouped (toString e).toList = Lexeme.ungrouped text.toList) ∧
      parse (toString e) limit = ⟨some e, [], (toString e).length⟩ ∧
      ∀ (other : String) (limit' : Nat), (parse other limit').IsClean →
        (parse other limit').root = some e → other ≠ toString e →
          (toString e).length < other.length := by
  refine ⟨view_sublist_repaired root piecewise_chars,
    view_sublist_repaired root Lexeme.piecewise_ofText, ?_,
    (fits_of_root_eq_some root).parse_toString, ?_⟩
  · intro clean
    refine ⟨toString_sublist_of_isClean root clean, ?_⟩
    rw [Expr.toList_toString]
    exact (spells_of_isClean root clean).1.ungrouped_eq
  · intro other limit' clean root'
    exact length_toString_lt_of_isClean root' clean

/-- An operand is missing, a literal begins with a zero, and two groups are left open. The same tree
is read from another text without fault. -/
theorem toString_sublist_of_unclosed :
    (parse "((7-)*(02+3" 2).root = some (.binary .mul (.literal 7)
        (.binary .add (.literal 2) (.literal 3))) ∧
      "7*(2+3)".toList <+ "((7-)*(02+3))".toList ∧ (parse "(7)*(02+3)" 1).IsClean ∧
      "7*(2+3)".length < "(7)*(02+3)".length := by
  have root : (parse "((7-)*(02+3" 2).root = some (.binary .mul (.literal 7)
      (.binary .add (.literal 2) (.literal 3))) := by decide +kernel
  have clean : (parse "(7)*(02+3)" 1).IsClean := by decide +kernel
  have repaired : (parse "((7-)*(02+3" 2).repaired "((7-)*(02+3" = "((7-)*(02+3))" := by
    decide +kernel
  obtain ⟨kept, -, -, -, shortest⟩ := toString_sublist_of_root root
  rw [repaired] at kept
  exact ⟨root, kept, clean, shortest "(7)*(02+3)" 1 clean (by decide +kernel) (by decide)⟩

end ArithExpr
