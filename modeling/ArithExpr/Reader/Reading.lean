import ArithExpr.Part
import ArithExpr.Reader.Basic

/-! Reading a part of an expression, with recovery. No fault stops a reading: it is written down,
and the tree is built from what remains. Every step leaves no more text than it found, and an
operator or a parenthesis takes a character off, so the recursion ends with the text. -/

namespace ArithExpr

/-- What a part comes to: its tree, if there is one, and the reader after it, which has at most
`bound` characters left. -/
structure Reading (bound : Nat) where
  tree : Option Expr
  after : Reader
  length_le : after.rest.length ≤ bound

def Reading.result {bound : Nat} (r : Reading bound) : Option Expr × Reader := (r.tree, r.after)

/-- A tree over two operands. A missing right operand leaves the left one; without a left operand
there is nothing to keep. -/
def Expr.combine? (op : Operator) : Option Expr → Option Expr → Option Expr
  | some l, some r => some (.binary op l r)
  | some l, none => some l
  | none, _ => none

namespace Reader

/-- A literal. A character that is no digit is reported and left to the caller; a literal that is
too large is reported and left behind. -/
def literal (s : Reader) : Reading s.rest.length :=
  have le := s.length_skipDigits_le
  match s.integer.1 with
  | .ok v => ⟨some (.literal v), s.skipDigits, le⟩
  | .error d =>
    if s.digits = [] then
      ⟨none, s.report (.unexpectedCharacter s.next? s.position), Nat.le_refl _⟩
    else
      ⟨none, s.skipDigits.report d, le⟩

mutual

/-- A part at the front of the text. A group that would nest too deeply is reported, and only its
opening parenthesis is left behind. -/
def read (part : Part) (s : Reader) : Reading s.rest.length :=
  match part with
  | .phrase level =>
    match read level.operand s with
    | ⟨tree, t, h⟩ => chain level tree t h
  | .factor =>
    match opened : s.accept? '(' with
    | none => s.literal
    | some t =>
      have shorter := length_accept? opened
      if s.depth < s.limit then
        match read .expression t.openGroup with
        | ⟨tree, u, hu⟩ =>
          match closed : u.closeGroup.accept? ')' with
          | some v => ⟨tree, v, by
              have := length_accept? closed
              simp only [rest_closeGroup, rest_openGroup] at this hu
              omega⟩
          | none => ⟨tree, u.closeGroup.report (.unclosedGroup u.position), by
              simp only [rest_report, rest_closeGroup, rest_openGroup] at hu ⊢
              omega⟩
      else
        ⟨none, t.report (.tooDeep s.limit s.position), by simp only [rest_report]; omega⟩
termination_by 3 * s.rest.length + part.rank
decreasing_by
  · rw [Part.rank_phrase]
    omega
  · rw [Part.rank_phrase]
    omega
  · have := Part.expression.rank_le
    simp only [rest_openGroup]
    omega

/-- Goes on with a chain whose tree so far is `left`, folding it to the left. -/
def chain {bound : Nat} (level : Level) (left : Option Expr) (s : Reader)
    (h : s.rest.length ≤ bound) : Reading bound :=
  match found : s.operator? level with
  | none => ⟨left, s, h⟩
  | some (op, t) =>
    have shorter := length_operator? found
    match read level.operand t with
    | ⟨right, u, hu⟩ => chain level (Expr.combine? op left right) u (by omega)
termination_by 3 * s.rest.length
decreasing_by
  · have := level.operand.rank_le
    omega
  · omega

end

/-! The equations of reading. The bound of a chain has no part in its result. -/

variable {s t : Reader} {level : Level} {left : Option Expr} {m n : Nat}

theorem result_chain_of_none {h : s.rest.length ≤ n} (none_next : s.operator? level = none) :
    (chain level left s h).result = (left, s) := by
  rw [chain]
  split
  · rfl
  · simp_all

theorem result_chain_of_some {op : Operator} {h : s.rest.length ≤ n}
    (next : s.operator? level = some (op, t)) :
    (chain level left s h).result =
      (chain level (Expr.combine? op left (t.read level.operand).tree) (t.read level.operand).after
        (Nat.le_trans (t.read level.operand).length_le
          (Nat.le_trans (Nat.le_of_succ_le (Nat.le_of_eq (length_operator? next))) h))).result := by
  rw [chain]
  split
  · simp_all
  · rename_i found
    cases next.symm.trans found
    rfl

theorem result_chain_congr (h : s.rest.length ≤ m) (h' : s.rest.length ≤ n) :
    (chain level left s h).result = (chain level left s h').result := by
  -- on the length of the text: each operator leaves less of it
  induction size : s.rest.length using Nat.strongRecOn generalizing s left with
  | ind k ih =>
    cases next : s.operator? level with
    | none => rw [result_chain_of_none next, result_chain_of_none next]
    | some found =>
      obtain ⟨op, t⟩ := found
      rw [result_chain_of_some next, result_chain_of_some next]
      have := length_operator? next
      have := (t.read level.operand).length_le
      exact ih _ (by omega) _ _ rfl

theorem result_read_phrase :
    (s.read (.phrase level)).result =
      (chain level (s.read level.operand).tree (s.read level.operand).after (Nat.le_refl _)).result := by
  rw [read]
  exact result_chain_congr _ _

theorem result_read_factor_of_literal (no_group : s.accept? '(' = none) :
    (s.read .factor).result = s.literal.result := by
  rw [read]
  split
  · rfl
  · simp_all

theorem result_read_factor_of_tooDeep (opened : s.accept? '(' = some t) (deep : s.limit ≤ s.depth) :
    (s.read .factor).result = (none, t.report (.tooDeep s.limit s.position)) := by
  rw [read]
  split
  · simp_all
  · rename_i found
    cases opened.symm.trans found
    rw [if_neg (Nat.not_lt.2 deep)]
    rfl

theorem result_read_factor_of_closed {u : Reader} (opened : s.accept? '(' = some t)
    (room : s.depth < s.limit)
    (closed : (t.openGroup.read .expression).after.closeGroup.accept? ')' = some u) :
    (s.read .factor).result = ((t.openGroup.read .expression).tree, u) := by
  rw [read]
  split
  · simp_all
  · rename_i found
    cases opened.symm.trans found
    rw [if_pos room]
    split
    rename_i inner
    rw [inner] at closed ⊢
    dsimp only
    split
    · simp_all [Reading.result]
    · simp_all

theorem result_read_factor_of_unclosed (opened : s.accept? '(' = some t) (room : s.depth < s.limit)
    (unclosed : (t.openGroup.read .expression).after.closeGroup.accept? ')' = none) :
    (s.read .factor).result =
      ((t.openGroup.read .expression).tree,
        (t.openGroup.read .expression).after.closeGroup.report
          (.unclosedGroup (t.openGroup.read .expression).after.position)) := by
  rw [read]
  split
  · simp_all
  · rename_i found
    cases opened.symm.trans found
    rw [if_pos room]
    split
    rename_i inner
    rw [inner] at unclosed ⊢
    dsimp only
    split
    · simp_all
    · rfl

end Reader

end ArithExpr
