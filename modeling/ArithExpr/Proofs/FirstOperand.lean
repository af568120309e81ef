import Mathlib.Algebra.Group.Nat.Defs
import ArithExpr.Proofs.MissingTree

/-! When a text has a tree. Only its beginning decides, which is its first operand and the groups
that open before it: a chain whose first operand was read keeps it whatever comes next, and no
operand behind can stand in for a first one that was lost. -/

namespace ArithExpr

/-- The text begins with a literal that is not too large, behind at most `room` opening
parentheses. -/
def BeginsWithLiteral (room : Nat) (text : List Char) : Prop :=
  ∃ opened digits rest, opened ≤ room ∧ text = List.replicate opened '(' ++ (digits ++ rest) ∧
    digits ≠ [] ∧ (∀ c ∈ digits, c.isDigit) ∧ (∀ c ∈ rest.head?, ¬ c.isDigit) ∧
    Decimal.value digits ≤ 2 ^ 63 - 1

namespace BeginsWithLiteral

variable {room : Nat} {digits rest text : List Char}

/-- A text of this form begins with a digit or with a parenthesis, which then there is room for. -/
theorem head?_eq (h : BeginsWithLiteral room text) :
    (∃ c, text.head? = some c ∧ c.isDigit) ∨ (text.head? = some '(' ∧ 0 < room) := by
  obtain ⟨opened, digits, rest, le, rfl, nonempty, digit, -, -⟩ := h
  cases opened with
  | zero =>
    obtain ⟨c, more, rfl⟩ := List.exists_cons_of_ne_nil nonempty
    exact .inl ⟨c, rfl, digit c List.mem_cons_self⟩
  | succ opened => exact .inr ⟨rfl, Nat.lt_of_lt_of_le opened.succ_pos le⟩

theorem digits_iff (nonempty : digits ≠ []) (digit : ∀ c ∈ digits, c.isDigit)
    (ends : ∀ c ∈ rest.head?, ¬ c.isDigit) :
    BeginsWithLiteral room (digits ++ rest) ↔ Decimal.toInt64? digits ≠ none := by
  rw [Ne, Decimal.toInt64?_eq_none_iff, Nat.not_le]
  refine ⟨?_, ?_⟩
  · rintro ⟨opened, digits', rest', -, split, -, digit', ends', small⟩
    cases opened with
    | zero =>
      obtain ⟨rfl, -⟩ := Decimal.digits_append_inj digit digit' ends ends' split
      exact Nat.lt_of_le_pred (by decide) small
    | succ opened => exact absurd split (Decimal.digits_append_ne (by decide) nonempty digit _ _)
  · intro small
    exact ⟨0, digits, rest, room.zero_le, rfl, nonempty, digit, ends, Nat.le_pred_of_lt small⟩

theorem open_iff : BeginsWithLiteral (room + 1) ('(' :: text) ↔ BeginsWithLiteral room text := by
  refine ⟨?_, ?_⟩
  · rintro ⟨opened, digits, rest, le, split, nonempty, digit, ends, small⟩
    cases opened with
    | zero =>
      rw [List.replicate_zero, List.nil_append] at split
      exact absurd split.symm (Decimal.digits_append_ne (by decide) nonempty digit _ _)
    | succ opened =>
      have behind := (List.cons.inj split).2
      exact ⟨opened, digits, rest, Nat.le_of_succ_le_succ le, behind, nonempty, digit, ends, small⟩
  · rintro ⟨opened, digits, rest, le, rfl, nonempty, digit, ends, small⟩
    exact ⟨opened + 1, digits, rest, Nat.succ_le_succ le, rfl, nonempty, digit, ends, small⟩

end BeginsWithLiteral

theorem Expr.isSome_combine? (op : Operator) (l r : Option Expr) :
    (combine? op l r).isSome ↔ l.isSome := by
  rw [Option.isSome_iff_ne_none, Ne, combine?_eq_none_iff, Option.isSome_iff_ne_none]

/-- A part comes to a tree exactly if the text from its place on begins with a literal, behind no
more parentheses than there is room for. -/
theorem Salvages.tree_isSome_iff {limit opened position : Nat} {part : Part} {text more : List Char}
    {next : Option Char} {tree : Option Expr} {ds : List Diagnostic}
    (h : Salvages limit part opened position text next tree ds) (behind : more.head? = next) :
    tree.isSome ↔ BeginsWithLiteral (limit - opened) (text ++ more) := by
  induction h generalizing more with
  | literal nonempty digit ends value =>
    subst behind
    simp [BeginsWithLiteral.digits_iff nonempty digit ends, value]
  | overflow nonempty digit ends large =>
    subst behind
    simp [BeginsWithLiteral.digits_iff nonempty digit ends, large]
  | unexpected no_digit no_group =>
    subst behind
    apply iff_of_false Bool.false_ne_true
    intro begins
    rcases begins.head?_eq with ⟨c, next, digit⟩ | ⟨next, -⟩
    · exact no_digit c next digit
    · exact no_group next
  | tooDeep deep =>
    apply iff_of_false Bool.false_ne_true
    intro begins
    rcases begins.head?_eq with ⟨c, next, digit⟩ | ⟨-, room⟩
    · cases next
      exact absurd digit (by decide)
    · omega
  | @closed opened _ text _ _ _ room _ ih =>
    have inner := ih (List.head?_cons (l := more))
    have one : limit - opened = limit - (opened + 1) + 1 := by omega
    rw [inner, one, List.append_assoc, List.singleton_append, List.cons_append,
      BeginsWithLiteral.open_iff]
  | @unclosed opened _ text _ _ _ room _ _ _ ih =>
    have one : limit - opened = limit - (opened + 1) + 1 := by omega
    rw [ih behind, one, List.cons_append, BeginsWithLiteral.open_iff]
  | operand _ _ ih => exact ih behind
  | @chain op _ _ left right _ _ _ _ _ _ _ _ ih_first _ =>
    -- what stands behind the first operand has no part in it
    have first := ih_first (List.head?_cons (l := right ++ more))
    rw [Expr.isSome_combine?, first, List.append_assoc, List.cons_append]

/-- A text has a tree exactly if it begins with a literal that is not too large, behind no more
opening parentheses than the limit allows. What follows the last digit neither costs it the tree
nor makes up for another beginning. -/
theorem parse_root_isSome_iff (text : String) (limit : Nat) :
    (parse text limit).root.isSome ↔ BeginsWithLiteral limit text.toList := by
  obtain ⟨taken, more, tree, ds, rfl, salvages, ends⟩ := exists_salvages_parse text limit
  rw [parse_eq_of_salvages salvages ends, String.toList_ofList]
  exact salvages.tree_isSome_iff rfl

end ArithExpr
