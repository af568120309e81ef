import ArithExpr.Expr.Nodes
import ArithExpr.Expr.Outline
import ArithExpr.Text.Lines

/-! The layout of an outline. What a line says about its node has no newline in it and does not
begin with a space, so the outline of a tree has a line for each node, and the spaces in front of a
line tell how far from the root the node is (`lines_outline`, `indentation_outlineLine`). -/

namespace ArithExpr

namespace Text

def spaces (n : Nat) : String := String.ofList (List.replicate n ' ')

/-- The number of spaces that a line begins with. -/
def indentation (line : String) : Nat := (line.toList.takeWhile (· = ' ')).length

theorem indentation_spaces_append {c : Char} {label : String} (first : label.toList.head? = some c)
    (no_space : c ≠ ' ') (n : Nat) : indentation (spaces n ++ label) = n := by
  obtain ⟨rest, split⟩ := List.head?_eq_some_iff.1 first
  rw [indentation, spaces, String.toList_append, String.toList_ofList, split,
    List.takeWhile_append_of_pos (by simp), List.takeWhile_cons_of_neg (by simpa using no_space),
    List.append_nil, List.length_replicate]

theorem spaces_add (m n : Nat) : spaces (m + n) = spaces m ++ spaces n := by
  rw [spaces, spaces, spaces, ← String.ofList_append, List.replicate_append_replicate]

theorem newline_notMem_spaces (n : Nat) : '\n' ∉ (spaces n).toList := by
  simp [spaces]

end Text

namespace Expr

/-! What the line of a node says: a word, and in parentheses what kind of node it is. -/

def word : Expr → List Char
  | literal v => Decimal.ofInt v.toInt
  | binary op _ _ => [op.symbol]

def kind : Expr → String
  | literal _ => "Integer"
  | binary op _ _ => op.name

variable {c : Char} {e : Expr}

theorem toList_label (e : Expr) :
    e.label.toList = e.word ++ ' ' :: ('(' :: e.kind.toList ++ [')']) := by
  cases e <;> simp [label, word, kind, toString]

theorem word_ne_nil (e : Expr) : e.word ≠ [] := by
  cases e with
  | literal v => exact Decimal.ofInt_ne_nil _
  | binary op l r => exact List.cons_ne_nil _ _

theorem notMem_word (no_digit : ¬ c.isDigit) (no_operator : Operator.ofSymbol? c = none) :
    c ∉ e.word := by
  intro h
  cases e with
  | literal v =>
    rcases Decimal.minus_or_digit_of_mem_ofInt h with rfl | digit
    · cases no_operator
    · exact no_digit digit
  | binary op l r =>
    rw [List.mem_singleton.1 h, Operator.ofSymbol?_symbol] at no_operator
    cases no_operator

theorem isAlpha_of_mem_kind (h : c ∈ e.kind.toList) : c.isAlpha := by
  have integer : "Integer".toList.all Char.isAlpha := by decide
  have name (op : Operator) : op.name.toList.all Char.isAlpha := by cases op <;> decide
  cases e with
  | literal v => exact List.all_eq_true.1 integer c h
  | binary op l r => exact List.all_eq_true.1 (name op) c h

theorem newline_notMem_label (e : Expr) : '\n' ∉ e.label.toList := by
  have word : '\n' ∉ e.word := notMem_word (by decide) rfl
  have kind : '\n' ∉ e.kind.toList := fun h => absurd (isAlpha_of_mem_kind h) (by decide)
  simp [toList_label, word, kind]

theorem exists_first_label (e : Expr) : ∃ c, e.label.toList.head? = some c ∧ c ≠ ' ' := by
  obtain ⟨c, rest, split⟩ := List.exists_cons_of_ne_nil e.word_ne_nil
  have no_space : ' ' ∉ e.word := notMem_word (by decide) rfl
  refine ⟨c, by rw [toList_label, split]; rfl, ?_⟩
  rintro rfl
  exact no_space (split ▸ List.mem_cons_self)

/-! The lines of an outline. -/

theorem outlineLine_eq (indent : Nat) (e : Expr) :
    outlineLine indent e = Text.spaces indent ++ e.label := rfl

theorem indentation_outlineLine (indent : Nat) (e : Expr) :
    Text.indentation (outlineLine indent e) = indent := by
  obtain ⟨c, first, no_space⟩ := e.exists_first_label
  exact Text.indentation_spaces_append first no_space indent

theorem newline_notMem_outlineLine (indent : Nat) (e : Expr) :
    '\n' ∉ (outlineLine indent e).toList := by
  simp [outlineLine_eq, Text.newline_notMem_spaces, newline_notMem_label]

theorem outlineLine_ofOperand (indent : Nat) (side : Side) (n : Node) :
    outlineLine (indent + 4 * (n.ofOperand side).distance) (n.ofOperand side).tree =
      outlineLine (indent + indentWidth + 4 * n.distance) n.tree := by
  have further : indent + 4 * (n.distance + 1) = indent + indentWidth + 4 * n.distance := by
    rw [indentWidth]
    omega
  rw [← further]
  rfl

theorem outlineLines_eq (indent : Nat) (e : Expr) :
    e.outlineLines indent = e.nodes.map fun n => outlineLine (indent + 4 * n.distance) n.tree := by
  induction e generalizing indent with
  | literal v => rfl
  | binary op l r ihl ihr =>
    simp only [outlineLines, nodes, ihl, ihr, List.map_cons, List.map_append, List.map_map,
      Function.comp_def, outlineLine_ofOperand]
    rfl

theorem lines_outline_append (indent : Nat) (e : Expr) (rest : String) :
    Text.lines (e.outline indent ++ rest) = e.outlineLines indent ++ Text.lines rest := by
  apply Text.lines_join_append
  intro line h
  rw [outlineLines_eq] at h
  obtain ⟨n, -, rfl⟩ := List.mem_map.1 h
  exact newline_notMem_outlineLine _ _

theorem lines_outline (indent : Nat) (e : Expr) :
    Text.lines (e.outline indent) = e.outlineLines indent ++ [""] := by
  have split := lines_outline_append indent e ""
  rwa [String.append_empty] at split

theorem map_indentation_outlineLines (indent : Nat) (e : Expr) :
    (e.outlineLines indent).map Text.indentation = e.nodes.map fun n => indent + 4 * n.distance := by
  simp only [outlineLines_eq, List.map_map, Function.comp_def, indentation_outlineLine]

theorem max?_indentation_outlineLines (indent : Nat) (e : Expr) :
    ((e.outlineLines indent).map Text.indentation).max? = some (indent + 4 * (e.height - 1)) := by
  obtain ⟨deepest, le⟩ := List.max?_eq_some_iff.1 e.max?_distance_nodes
  rw [map_indentation_outlineLines, List.max?_eq_some_iff]
  refine ⟨?_, ?_⟩
  · obtain ⟨n, hn, distance⟩ := List.mem_map.1 deepest
    rw [← distance]
    exact List.mem_map_of_mem hn
  · intro columns h
    obtain ⟨n, hn, rfl⟩ := List.mem_map.1 h
    have := le _ (List.mem_map_of_mem hn)
    omega

theorem not_isPrintable_iff {e : Expr} :
    ¬ e.IsPrintable ↔ ∃ line ∈ e.outlineLines 0, columnLimit < Text.indentation line := by
  obtain ⟨furthest, le⟩ := List.max?_eq_some_iff.1 (max?_indentation_outlineLines 0 e)
  rw [Nat.zero_add] at furthest le
  rw [IsPrintable, Nat.not_le]
  constructor
  · intro too_far
    obtain ⟨line, h, columns⟩ := List.mem_map.1 furthest
    exact ⟨line, h, columns ▸ too_far⟩
  · rintro ⟨line, h, too_far⟩
    exact Nat.lt_of_lt_of_le too_far (le _ (List.mem_map_of_mem h))

/-- Moving the root to the right moves every line as far. -/
theorem outlineLines_moved (indent : Nat) (e : Expr) :
    e.outlineLines indent = (e.outlineLines 0).map (Text.spaces indent ++ ·) := by
  simp only [outlineLines_eq, List.map_map, Function.comp_def, outlineLine_eq, Nat.zero_add,
    Text.spaces_add, String.append_assoc]

/-- The nodes in preorder, one line each, and behind the last line nothing. The line of a node is
four columns further to the right for each step from the root to the node, so the lines furthest to
the right are those of the lowest nodes. An outline whose root stands further to the right is the
same outline with that many spaces in front of every line. -/
theorem outline_layout (e : Expr) (indent : Nat) :
    (e.nodes.Pairwise Node.Precedes ∧
      ∀ n, n ∈ e.nodes ↔ e.follow? n.path = some n.tree) ∧
    (∃ lines, Text.lines (e.outline indent) = lines ++ [""] ∧ lines.length = e.size ∧
      lines = e.nodes.map (fun n => Text.spaces (indent + 4 * n.distance) ++ n.tree.label) ∧
      lines.map Text.indentation = e.nodes.map (fun n => indent + 4 * n.distance) ∧
      (lines.map Text.indentation).max? = some (indent + 4 * (e.height - 1))) ∧
    ∃ lines, Text.lines (e.outline 0) = lines ++ [""] ∧
      e.outline indent =
        String.join (lines.map fun line => Text.spaces indent ++ line ++ "\n") := by
  refine ⟨⟨e.pairwise_nodes, fun n => mem_nodes_iff⟩, ⟨e.outlineLines indent, ?_⟩,
    e.outlineLines 0, lines_outline 0 e, ?_⟩
  · exact ⟨lines_outline indent e, length_outlineLines indent e, outlineLines_eq indent e,
      map_indentation_outlineLines indent e, max?_indentation_outlineLines indent e⟩
  · rw [outline, outlineLines_moved, List.map_map]
    rfl

end Expr

end ArithExpr
