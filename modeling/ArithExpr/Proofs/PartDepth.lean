import Mathlib.Algebra.Group.Nat.Defs
import ArithExpr.Proofs.Watch

/-! How deeply the parts of an expression are nested while they are read. A part is inside another
one of its kind only if a group was opened between the two, so that no kind of part is nested more
often than groups may be open, and once more. How long the text is, and how many operands its
chains have, does not come into it. -/

namespace ArithExpr

/-- A bound on how many parts of this kind are nested while a part is read, itself included: one for
each group that may still be opened, and one more where such a part stands outside those groups. -/
def Part.nested (counted part : Part) (s : Reader) : Nat :=
  s.limit - s.depth + if counted.rank ≤ part.rank then 1 else 0

namespace Watch

variable {counted part : Part} {s : Reader} {left inside : Nat}

theorem budget_of_ne (other : part ≠ counted) : budget counted part s left = some left :=
  if_pos other

theorem budget_self : budget counted counted s (inside + 1) = some inside :=
  if_neg (not_not_intro rfl)

/-- A part that is counted needs something left. -/
theorem exists_left_of_nested_le (enough : counted.nested counted s ≤ left) :
    ∃ inside, left = inside + 1 ∧ s.limit - s.depth ≤ inside := by
  rw [Part.nested, if_pos (Nat.le_refl _)] at enough
  exact ⟨left - 1, by omega, by omega⟩

theorem admits_budget (counted : Part) :
    (Watch.budget counted).Admits fun part s left => counted.nested part s ≤ left where
  phrase {level s left} enough := by
    have rank := Part.rank_phrase level
    by_cases same : Part.phrase level = counted
    · subst same
      obtain ⟨inside, rfl, le⟩ := exists_left_of_nested_le enough
      refine ⟨inside, budget_self, ?_⟩
      intro t depth limit
      rw [Part.nested, depth, limit, if_neg (by omega)]
      exact le
    · refine ⟨left, budget_of_ne same, ?_⟩
      intro t depth limit
      apply Nat.le_trans _ enough
      unfold Part.nested
      rw [depth, limit]
      split <;> split <;> omega
  factor {s left} enough := by
    by_cases same : Part.factor = counted
    · subst same
      obtain ⟨inside, rfl, le⟩ := exists_left_of_nested_le enough
      refine ⟨inside, budget_self, ?_⟩
      intro room t depth limit
      unfold Part.nested
      rw [depth, limit]
      split <;> omega
    · refine ⟨left, budget_of_ne same, ?_⟩
      -- the group that is opened makes up for the part in it
      intro room t depth limit
      apply Nat.le_trans _ enough
      unfold Part.nested
      rw [depth, limit]
      split <;> omega

end Watch

namespace Reader

variable {s : Reader}

theorem readWatched_budget {counted : Part} {left : Nat} (le : s.limit - s.depth < left)
    (part : Part) : s.readWatched (Watch.budget counted) left part = some (s.read part) := by
  apply readWatched_eq_some_read (Watch.admits_budget counted)
  unfold Part.nested
  split <;> omega

theorem depth_read_openGroup (s : Reader) (part : Part) :
    (s.openGroup.read part).after.depth = s.depth + 1 :=
  (reads_read part s.openGroup).1.depth_eq

/-- A reading that begins outside of all groups never nests more than `limit + 1` parts of a kind:
with a budget of so many it is the reading that it is without one. If the limit fits in a machine
word, so does the number of open groups at every moment, and wherever a group is closed there is
one to close. -/
theorem nested_parts_within_limit (outermost : s.depth = 0) (part : Part) :
    (∀ counted,
      s.readWatched (Watch.budget counted) (s.limit + 1) part = some (s.read part) ∧
      s.start.readWatched (Watch.budget counted) (s.limit + 1) .expression =
        some (s.start.read .expression)) ∧
    (s.limit ≤ 2 ^ 64 - 1 →
      s.readWatched (Watch.groups (2 ^ 64 - 1)) () part = some (s.read part) ∧
      s.start.readWatched (Watch.groups (2 ^ 64 - 1)) () .expression =
        some (s.start.read .expression)) ∧
    ∀ t : Reader, 0 < (t.openGroup.read .expression).after.depth ∧
      (t.openGroup.read .expression).after.closeGroup.depth = t.depth := by
  refine ⟨?_, ?_, ?_⟩
  · intro counted
    have room : s.limit - s.depth < s.limit + 1 := Nat.lt_succ_of_le (Nat.sub_le _ _)
    exact ⟨readWatched_budget room part, readWatched_budget (s := s.start) room .expression⟩
  · intro word
    have room : s.depth ≤ s.limit := outermost ▸ Nat.zero_le _
    exact ⟨readWatched_groups room word part,
      readWatched_groups (s := s.start) room word .expression⟩
  · intro t
    rw [depth_closeGroup, depth_read_openGroup]
    exact ⟨Nat.succ_pos _, Nat.add_sub_cancel _ _⟩

/-- Three groups are opened one behind the other, and in the last one another that is too deep. -/
theorem nested_parts_within_limit_in_chain :
    (Reader.ofChars "(1)*(2+3)*((x".toList 1).depth = 0 ∧
      (Reader.ofChars "(1)*(2+3)*((x".toList 1).readWatched (Watch.budget .factor) 2 .term =
        some ((Reader.ofChars "(1)*(2+3)*((x".toList 1).read .term) ∧
      (Reader.ofChars "(1)*(2+3)*((x".toList 1).readWatched (Watch.groups (2 ^ 64 - 1)) () .term =
        some ((Reader.ofChars "(1)*(2+3)*((x".toList 1).read .term) := by
  have outermost : (Reader.ofChars "(1)*(2+3)*((x".toList 1).depth = 0 := rfl
  obtain ⟨within, in_word, -⟩ := nested_parts_within_limit outermost .term
  have word : (Reader.ofChars "(1)*(2+3)*((x".toList 1).limit ≤ 2 ^ 64 - 1 := by decide
  exact ⟨outermost, (within .factor).1, (in_word word).1⟩

/-- One less is not enough. -/
example : (Reader.ofChars ['(', '1'] 1).readWatched (Watch.budget .expression) 1 .expression =
    none := by
  decide +kernel

end Reader

end ArithExpr
