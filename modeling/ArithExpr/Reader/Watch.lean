import ArithExpr.Reader.Reading

/-! Reading under a watch. The watch is asked each time a part begins; it can end the reading there,
or say what is left to the parts inside this one. In all else the reading is that of `read`, so a
watch that never ends it tells what holds at every moment of a reading, not only behind it. -/

namespace ArithExpr

/-- Whether a part may begin at a reader, by what is left to it, and what is then left to each part
inside it. -/
abbrev Watch (α : Type) := Part → Reader → α → Option α

namespace Watch

/-- Ends a reading as soon as more than `limit` groups are open. A group is opened just before the
expression in it begins, so no number of open groups escapes the watch. -/
def groups (limit : Nat) : Watch Unit :=
  fun _ s _ => if s.depth ≤ limit then some () else none

/-- Lets parts of one kind be nested as often as there is something left. Each of them spends one
of it for the parts inside it and nothing for those behind it, so that a chain costs the same
however many operands it has. -/
def budget (counted : Part) : Watch Nat :=
  fun part _ left =>
    if part ≠ counted then some left
    else
      match left with
      | 0 => none
      | inside + 1 => some inside

end Watch

namespace Reader

variable {α : Type}

mutual

/-- A part, read as by `read` if the watch lets it. -/
def readWatched (watch : Watch α) (left : α) (part : Part) (s : Reader) :
    Option (Reading s.rest.length) :=
  match watch part s left with
  | none => none
  | some inside =>
    match part with
    | .phrase level =>
      match readWatched watch inside level.operand s with
      | none => none
      | some ⟨tree, t, h⟩ => chainWatched watch inside level tree t h
    | .factor =>
      match opened : s.accept? '(' with
      | none => some s.literal
      | some t =>
        have shorter := length_accept? opened
        if s.depth < s.limit then
          match readWatched watch inside .expression t.openGroup with
          | none => none
          | some ⟨tree, u, hu⟩ =>
            match closed : u.closeGroup.accept? ')' with
            | some v => some ⟨tree, v, by
                have := length_accept? closed
                simp only [rest_closeGroup, rest_openGroup] at this hu
                omega⟩
            | none => some ⟨tree, u.closeGroup.report (.unclosedGroup u.position), by
                simp only [rest_report, rest_closeGroup, rest_openGroup] at hu ⊢
                omega⟩
        else
          some ⟨none, t.report (.tooDeep s.limit s.position), by simp only [rest_report]; omega⟩
termination_by 3 * s.rest.length + part.rank
decreasing_by
  · rw [Part.rank_phrase]
    omega
  · rw [Part.rank_phrase]
    omega
  · have := Part.expression.rank_le
    simp only [rest_openGroup]
    omega

/-- The rest of a chain, read as by `chain` if the watch lets every operand. -/
def chainWatched {bound : Nat} (watch : Watch α) (left : α) (level : Level) (first : Option Expr)
    (s : Reader) (h : s.rest.length ≤ bound) : Option (Reading bound) :=
  match found : s.operator? level with
  | none => some ⟨first, s, h⟩
  | some (op, t) =>
    have shorter := length_operator? found
    match readWatched watch left level.operand t with
    | none => none
    | some ⟨last, u, hu⟩ =>
      chainWatched watch left level (Expr.combine? op first last) u (by omega)
termination_by 3 * s.rest.length
decreasing_by
  · have := level.operand.rank_le
    omega
  · omega

end

end Reader

end ArithExpr
