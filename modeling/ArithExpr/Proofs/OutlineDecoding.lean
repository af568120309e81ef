import Mathlib.Data.List.Basic
import ArithExpr.Proofs.OutlineLayout

/-! Outlines can be read back from the left. A line shows at which column it stands and what its
node is; that a negative literal begins like a minus sign does no harm, as the kind of the node
stands behind the first space (`label_inj`). The operands of an operator stand one behind the other
with nothing between them, but an outline shows by itself where it ends
(`outlineLines_append_inj`). -/

namespace ArithExpr

namespace Expr

variable {a b : Expr} {i j : Nat} {ls ls' : List String} {r r' : String}

theorem word_kind_inj (h : a.label = b.label) : a.word = b.word ∧ a.kind = b.kind := by
  have no_space (e : Expr) : ' ' ∉ e.word := notMem_word (by decide) rfl
  have no_space_behind (e : Expr) : ' ' ∉ '(' :: e.kind.toList ++ [')'] := by
    have kind : ' ' ∉ e.kind.toList := fun h => absurd (isAlpha_of_mem_kind h) (by decide)
    simpa using kind
  have texts := congrArg String.toList h
  rw [toList_label, toList_label,
    List.append_cons_inj_of_notMem (no_space a) (no_space_behind a)] at texts
  obtain ⟨word, -, behind⟩ := texts
  have kind : a.kind.toList = b.kind.toList := List.append_cancel_right (List.cons.inj behind).2
  exact ⟨word, String.toList_inj.1 kind⟩

theorem label_inj (h : a.label = b.label) : a.value? = b.value? ∧ a.operator? = b.operator? := by
  have integer (op : Operator) : op.name ≠ "Integer" := by cases op <;> decide
  obtain ⟨word, kind⟩ := word_kind_inj h
  cases a with
  | literal v =>
    cases b with
    | literal w =>
      obtain rfl : v = w := Int64.toInt_inj.1 (Decimal.ofInt_inj word)
      exact ⟨rfl, rfl⟩
    | binary op l r => exact absurd kind.symm (integer op)
  | binary op l r =>
    cases b with
    | literal w => exact absurd kind (integer op)
    | binary op' l' r' =>
      obtain rfl : op = op' := Operator.symbol_injective (List.cons.inj word).1
      exact ⟨rfl, rfl⟩

theorem outlineLine_inj (h : outlineLine i a = outlineLine j b) : i = j ∧ a.label = b.label := by
  obtain rfl : i = j := by
    rw [← indentation_outlineLine i a, h, indentation_outlineLine]
  exact ⟨rfl, (String.append_right_inj _).1 h⟩

/-- The first line of an outline tells the root from any other. -/
theorem root_inj (h : a.outlineLines i ++ ls = b.outlineLines j ++ ls') :
    i = j ∧ a.value? = b.value? ∧ a.operator? = b.operator? := by
  have first (i : Nat) (e : Expr) (ls : List String) :
      (e.outlineLines i ++ ls).head? = some (outlineLine i e) := by
    cases e <;> rfl
  have line : outlineLine i a = outlineLine j b := by
    rw [← Option.some.injEq, ← first i a ls, h, first]
  obtain ⟨same, label⟩ := outlineLine_inj line
  exact ⟨same, label_inj label⟩

theorem outlineLines_append_inj (h : a.outlineLines i ++ ls = b.outlineLines j ++ ls') :
    i = j ∧ a = b ∧ ls = ls' := by
  -- what stands behind an outline is arbitrary, as for a left operand it is the right one
  induction a generalizing b i j ls ls' with
  | literal v =>
    obtain ⟨rfl, value, -⟩ := root_inj h
    cases b with
    | literal w =>
      cases value
      exact ⟨rfl, rfl, (List.cons.inj h).2⟩
    | binary op l r => cases value
  | binary op l r ihl ihr =>
    obtain ⟨rfl, -, operator⟩ := root_inj h
    cases b with
    | literal w => cases operator
    | binary op' l' r' =>
      cases operator
      rw [outlineLines, outlineLines, List.cons_append, List.cons_append, List.append_assoc,
        List.append_assoc] at h
      have below := (List.cons.inj h).2
      obtain ⟨-, rfl, behind⟩ := ihl below
      obtain ⟨-, rfl, rest⟩ := ihr behind
      exact ⟨rfl, rfl, rest⟩

theorem outline_append_inj (h : a.outline i ++ r = b.outline j ++ r') :
    i = j ∧ a = b ∧ r = r' := by
  have lines := congrArg Text.lines h
  rw [lines_outline_append, lines_outline_append] at lines
  obtain ⟨rfl, rfl, -⟩ := outlineLines_append_inj lines
  exact ⟨rfl, rfl, (String.append_right_inj _).1 h⟩

/-- A text that begins with an outline does so in one way only: it tells at which column the root
stands, which tree it is and where the outline ends. So no outline is the beginning of another one,
and trees with the same outline are the same. -/
theorem outline_determines_tree :
    (∀ (a b : Expr) (i j : Nat) (r r' : String), a.outline i ++ r = b.outline j ++ r' →
      i = j ∧ a = b ∧ r = r') ∧
    (∀ (a b : Expr) (i j : Nat), (a.outline i).toList <+: (b.outline j).toList → i = j ∧ a = b) ∧
    ∀ a b : Expr, a.outline 0 = b.outline 0 → a = b := by
  refine ⟨?_, ?_, ?_⟩
  · intro a b i j r r' h
    exact outline_append_inj h
  · rintro a b i j ⟨rest, h⟩
    have text : a.outline i ++ String.ofList rest = b.outline j ++ "" := by
      apply String.toList_inj.1
      simpa using h
    obtain ⟨column, tree, -⟩ := outline_append_inj text
    exact ⟨column, tree⟩
  · intro a b h
    obtain ⟨-, tree, -⟩ := outline_append_inj (congrArg (· ++ "") h)
    exact tree

/-- The outline of `-1-2` in front of a line that could begin another outline. -/
theorem outline_determines_tree_of_two_signs :
    (∀ (e : Expr) (i : Nat) (r : String),
      e.outline i ++ r = "  - (Minus)\n      -1 (Integer)\n      2 (Integer)\n- (Minus)\n" →
        i = 2 ∧ e = binary .sub (literal (-1)) (literal 2) ∧ r = "- (Minus)\n") ∧
      ∀ e : Expr, e.outline 0 = "-1 (Integer)\n" → e = literal (-1) := by
  obtain ⟨determined, -, same⟩ := outline_determines_tree
  refine ⟨?_, ?_⟩
  · intro e i r h
    have text : (binary .sub (literal (-1)) (literal 2)).outline 2 ++ "- (Minus)\n" =
        "  - (Minus)\n      -1 (Integer)\n      2 (Integer)\n- (Minus)\n" := by decide
    exact determined _ _ _ _ _ _ (h.trans text.symm)
  · intro e h
    exact same _ _ (h.trans (by decide))

end Expr

end ArithExpr
