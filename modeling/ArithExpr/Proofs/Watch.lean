import ArithExpr.Reader.Watch
import ArithExpr.Proofs.Reads

/-! Watches that never end a reading. The main fact is `readWatched_eq_some_read`: it takes a
measure of what has to be left to a part, which the watch lets begin if so much is left and which
then is left to the parts inside. A reading has to do with it only by the depth at which its parts
begin. -/

namespace ArithExpr

/-- Where `Enough` is left to a part, the watch lets it begin, and enough is left to the parts
inside it. -/
structure Watch.Admits {α : Type} (watch : Watch α) (Enough : Part → Reader → α → Prop) : Prop where
  phrase {level : Level} {s : Reader} {left : α} (h : Enough (.phrase level) s left) :
    ∃ inside, watch (.phrase level) s left = some inside ∧
      ∀ t : Reader, t.depth = s.depth → t.limit = s.limit → Enough level.operand t inside
  factor {s : Reader} {left : α} (h : Enough .factor s left) :
    ∃ inside, watch .factor s left = some inside ∧ (s.depth < s.limit →
      ∀ t : Reader, t.depth = s.depth + 1 → t.limit = s.limit → Enough .expression t inside)

theorem Reading.eq_of_result {n : Nat} {r q : Reading n} (h : r.result = q.result) : r = q := by
  cases r
  cases q
  cases h
  rfl

namespace Reader

variable {α : Type} {watch : Watch α} {Enough : Part → Reader → α → Prop} {left inside : α}
  {s : Reader} {part : Part} {level : Level} {tree : Option Expr} {n : Nat}

theorem readWatched_factor (admitted : watch .factor s left = some inside)
    (group : ∀ t, s.accept? '(' = some t → s.depth < s.limit →
      t.openGroup.readWatched watch inside .expression = some (t.openGroup.read .expression)) :
    s.readWatched watch left .factor = some (s.read .factor) := by
  rw [readWatched, admitted]
  dsimp only
  split
  · rename_i no_group
    have literal := result_read_factor_of_literal no_group
    exact congrArg some (Reading.eq_of_result literal.symm)
  rename_i t opened
  split
  · rename_i room
    rw [group t opened room]
    dsimp only
    split
    · rename_i closed
      have group := result_read_factor_of_closed opened room closed
      exact congrArg some (Reading.eq_of_result group.symm)
    · rename_i unclosed
      have group := result_read_factor_of_unclosed opened room unclosed
      exact congrArg some (Reading.eq_of_result group.symm)
  · rename_i deep
    have tooDeep := result_read_factor_of_tooDeep opened (Nat.le_of_not_lt deep)
    exact congrArg some (Reading.eq_of_result tooDeep.symm)

theorem chainWatched_eq_some_chain {h : s.rest.length ≤ n}
    (operands : ∀ u : Reader, u.rest.length < s.rest.length → u.depth = s.depth →
      u.limit = s.limit → u.readWatched watch left level.operand = some (u.read level.operand)) :
    chainWatched watch left level tree s h = some (chain level tree s h) := by
  -- on the length of the text left: every operand leaves less of it
  induction size : s.rest.length using Nat.strongRecOn generalizing s tree n with
  | ind k ih =>
    subst size
    rw [chainWatched]
    split
    · rename_i stop
      exact congrArg some (Reading.eq_of_result (result_chain_of_none stop).symm)
    · rename_i op t next
      have shorter := length_operator? next
      obtain ⟨-, rfl, rfl⟩ := operator?_eq_some_iff.1 next
      have le := ((s.skip 1).read op.level.operand).length_le
      obtain ⟨last, -⟩ := reads_read op.level.operand (s.skip 1)
      rw [operands (s.skip 1) (by omega) rfl rfl]
      dsimp only
      rw [ih _ (Nat.lt_of_le_of_lt le (by omega)) _ rfl]
      · exact congrArg some (Reading.eq_of_result (result_chain_of_some next).symm)
      · intro u hu depth limit
        exact operands u (by omega) (depth.trans last.depth_eq) (limit.trans last.limit_eq)

/-- A watch that admits every part leaves the reading as it is. -/
theorem readWatched_eq_some_read (admits : watch.Admits Enough) (enough : Enough part s left) :
    s.readWatched watch left part = some (s.read part) := by
  induction size : 3 * s.rest.length + part.rank using Nat.strongRecOn
    generalizing part s left with
  | ind k ih =>
    subst size
    cases part with
    | phrase level =>
      obtain ⟨inside, admitted, operands⟩ := admits.phrase enough
      have rank := Part.rank_phrase level
      have le := (s.read level.operand).length_le
      obtain ⟨first, -⟩ := reads_read level.operand s
      rw [readWatched, admitted]
      dsimp only
      rw [ih _ (by omega) (operands s rfl rfl) rfl]
      dsimp only
      rw [chainWatched_eq_some_chain]
      · refine congrArg some (Reading.eq_of_result ?_)
        rw [result_read_phrase]
        exact result_chain_congr _ _
      · intro u hu depth limit
        refine ih _ (by omega) (operands u ?_ ?_) rfl
        · exact depth.trans first.depth_eq
        · exact limit.trans first.limit_eq
    | factor =>
      obtain ⟨inside, admitted, group⟩ := admits.factor enough
      refine readWatched_factor admitted fun t opened room => ?_
      have rank := Part.expression.rank_le
      have shorter := length_accept? opened
      obtain ⟨-, rfl⟩ := accept?_eq_some_iff.1 opened
      exact ih _ (by simp only [rest_openGroup]; omega) (group room _ rfl rfl) rfl

end Reader

theorem Watch.admits_groups (bound : Nat) :
    (Watch.groups bound).Admits fun _ s _ => s.depth ≤ s.limit ∧ s.limit ≤ bound where
  phrase {_ s _} h := by
    refine ⟨(), if_pos (Nat.le_trans h.1 h.2), ?_⟩
    intro t depth limit
    rwa [depth, limit]
  factor {s _} h := by
    refine ⟨(), if_pos (Nat.le_trans h.1 h.2), ?_⟩
    intro room t depth limit
    rw [depth, limit]
    exact ⟨room, h.2⟩

/-- At no moment of a reading are more groups open than the limit allows. -/
theorem Reader.readWatched_groups {s : Reader} {bound : Nat} (room : s.depth ≤ s.limit)
    (le : s.limit ≤ bound) (part : Part) :
    s.readWatched (Watch.groups bound) () part = some (s.read part) :=
  readWatched_eq_some_read (Watch.admits_groups bound) ⟨room, le⟩

end ArithExpr
