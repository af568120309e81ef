import ArithExpr.Proofs.Session

/-! What a reading depends on. What stands before the reader does not count, nor what was found
there: the same text is read in the same way at every place, only that the places in the diagnostics
are moved (`Salvages.shift`, `Reader.exists_replay`). Of what stands behind a part just one
character counts, by which the reader sees that the part is over. -/

namespace ArithExpr

/-- The same diagnostic, with its place moved on by `n` characters. -/
def Diagnostic.shift (n : Nat) : Diagnostic → Diagnostic
  | unexpectedCharacter found p => unexpectedCharacter found (n + p)
  | unclosedGroup p => unclosedGroup (n + p)
  | invalidInteger fault p => invalidInteger fault (n + p)
  | trailingText remaining p => trailingText remaining (n + p)
  | tooDeep limit p => tooDeep limit (n + p)

variable {part : Part} {tree : Option Expr} {text taken : List Char}
  {limit opened position n : Nat} {next : Option Char} {ds : List Diagnostic} {r s t : Reader}

theorem Diagnostic.leftover_shift (n position : Nat) (rest : List Char) :
    leftover (n + position) rest = (leftover position rest).map (shift n) := by
  unfold leftover
  split <;> rfl

/-! Moving a reading. -/

theorem Salvages.shift (h : Salvages limit part opened position text next tree ds) (n : Nat) :
    Salvages limit part opened (n + position) text next tree (ds.map (Diagnostic.shift n)) := by
  induction h with
  | literal nonempty digit ends value => exact .literal nonempty digit ends value
  | overflow nonempty digit ends large => exact .overflow nonempty digit ends large
  | unexpected no_digit no_group => exact .unexpected no_digit no_group
  | tooDeep deep => exact .tooDeep deep
  | closed room _ ih => exact .closed room ih
  | @unclosed _ position text _ _ _ room _ ends no_close ih =>
    have place : n + (position + 1 + text.length) = n + position + 1 + text.length := by omega
    have moved := Salvages.unclosed room ih ends no_close
    rw [List.map_append, List.map_singleton, Diagnostic.shift, place]
    exact moved
  | operand _ ends ih => exact .operand ih ends
  | @chain op _ position left _ _ _ _ _ _ _ _ ends ih_first ih_last =>
    have place : n + (position + left.length + 1) = n + position + left.length + 1 := by omega
    rw [place] at ih_last
    rw [List.map_append]
    exact .chain ih_first ih_last ends

/-- What one reader reads, another one reads as well that has the same text before it, has as many
groups open under the same limit, and stands `n` characters further on. -/
theorem Reader.exists_replay (part : Part) (rest : s.rest = r.rest)
    (depth : s.depth = r.depth) (limit : s.limit = r.limit)
    (position : s.position = n + r.position) :
    ∃ tree t u ds, (r.read part).result = (tree, t) ∧ (s.read part).result = (tree, u) ∧
      u.rest = t.rest ∧ u.position = n + t.position ∧ t.diagnostics = r.diagnostics ++ ds ∧
      u.diagnostics = s.diagnostics ++ ds.map (Diagnostic.shift n) := by
  obtain ⟨read, isOver⟩ := reads_read part r
  obtain ⟨text, ds, takes, salvages⟩ := read.salvages
  have split : s.rest = text ++ (r.read part).after.rest := rest.trans takes.rest
  obtain ⟨u, replayed, moved⟩ := (salvages.shift n).reads limit depth position split rfl
  have behind := moved.rest_eq split
  -- the same character comes next, so the part is over here as well
  have ends : part.IsOver u := by
    intro op next
    exact isOver op ((congrArg List.head? behind).symm.trans next)
  refine ⟨_, _, u, ds, rfl, reads_iff.2 ⟨replayed, ends⟩, behind, ?_, takes.diagnostics,
    moved.diagnostics⟩
  have place : (r.read part).after.position = r.position + text.length := takes.position
  rw [moved.position, place, position, Nat.add_assoc]

namespace Reader

theorem read_shift (outermost : s.depth = 0) (part : Part) :
    let alone := (ofChars s.rest s.limit).read part
    (s.read part).tree = alone.tree ∧
      (s.read part).after.position = s.position + alone.after.position ∧
      (s.read part).after.diagnostics =
        s.diagnostics ++ alone.after.diagnostics.map (Diagnostic.shift s.position) := by
  obtain ⟨tree, t, u, ds, alone, here, -, position, found, added⟩ :=
    exists_replay (s := s) (r := ofChars s.rest s.limit) part rfl outermost rfl rfl
  obtain ⟨rfl, rfl⟩ := Prod.mk.inj alone
  obtain ⟨same, rfl⟩ := Prod.mk.inj here
  obtain rfl : _ = ds := found
  exact ⟨same, position, added⟩

theorem outcome_shift (outermost : s.depth = 0) :
    let alone := (ofChars s.rest s.limit).outcome
    s.outcome.root = alone.root ∧ s.outcome.consumed = s.position + alone.consumed ∧
      s.outcome.diagnostics =
        s.diagnostics ++ alone.diagnostics.map (Diagnostic.shift s.position) := by
  obtain ⟨tree, t, u, ds, alone, here, behind, position, found, added⟩ :=
    exists_replay (s := s.start) (r := (ofChars s.rest s.limit).start) .expression rfl outermost
      rfl rfl
  obtain ⟨read, isOver⟩ := reads_iff.1 alone
  obtain ⟨replayed, ends⟩ := reads_iff.1 here
  rw [outcome_of_reads replayed ends, outcome_of_reads read isOver]
  refine ⟨rfl, position, ?_⟩
  rw [diagnostics_reportRest, diagnostics_reportRest, added, found, behind, position,
    Diagnostic.leftover_shift, List.append_assoc, ← List.map_append]
  rfl

/-- Nothing that was read or found before counts. After any calls, a part is read from the text that
is left as by a fresh reader that has only this text before it, and so is the whole rest: to the
same tree, over as many characters, with the same diagnostics, whose places are moved. -/
theorem reading_independent_of_place (text : String) (limit : Nat) (calls : List Call) :
    let s := (ofChars text.toList limit).performAll calls
    let fresh := ofChars (text.toList.drop s.position) limit
    (∀ part,
      (s.read part).tree = (fresh.read part).tree ∧
        (s.read part).after.position = s.position + (fresh.read part).after.position ∧
        (s.read part).after.diagnostics =
          s.diagnostics ++ (fresh.read part).after.diagnostics.map (Diagnostic.shift s.position)) ∧
      s.outcome.root = fresh.outcome.root ∧
      s.outcome.consumed = s.position + fresh.outcome.consumed ∧
      s.outcome.diagnostics =
        s.diagnostics ++ fresh.outcome.diagnostics.map (Diagnostic.shift s.position) := by
  intro s fresh
  have session : InSession text limit s := inSession_performAll text limit calls
  have same : fresh = ofChars s.rest s.limit := by rw [session.rest_eq, session.limit_eq]
  rw [same]
  exact ⟨read_shift session.depth_eq, outcome_shift session.depth_eq⟩

end Reader

/-! Looking ahead. -/

/-- What a text of which something is left comes to, whatever stands behind the next character. -/
theorem parse_eq_of_left {text : String} {c : Char} {rest : List Char}
    (h : Salvages limit .expression 0 0 taken (some c) tree ds)
    (ends : Part.expression.EndsAt (some c)) (split : text.toList = taken ++ c :: rest) :
    parse text limit =
      ⟨tree, ds ++ [.trailingText (String.ofList (text.toList.drop taken.length)) taken.length],
        taken.length⟩ := by
  rw [split, List.drop_left, ← String.ofList_toList (s := text), split]
  exact parse_eq_of_salvages h ends

theorem exists_salvages_of_left {text : String}
    (left : (parse text limit).consumed < text.length) : ∃ taken c rest tree ds,
      text.toList = taken ++ c :: rest ∧ Salvages limit .expression 0 0 taken (some c) tree ds ∧
      Part.expression.EndsAt (some c) := by
  obtain ⟨taken, more, tree, ds, rfl, salvages, ends⟩ := exists_salvages_parse text limit
  rw [parse_eq_of_salvages salvages ends] at left
  cases more with
  | nil => simp at left
  | cons c rest => exact ⟨taken, c, rest, tree, ds, String.toList_ofList, salvages, ends⟩

/-- A reading looks one character ahead and no further. Where text is left behind the expression,
all texts that agree up to the first character that is left come to the same tree over as many
characters, with the same diagnostics but for the text that is left. That character is never an
operator. -/
theorem parse_lookahead {text text' : String} {limit : Nat}
    (left : (parse text limit).consumed < text.length)
    (agree : text.toList.take ((parse text limit).consumed + 1) <+: text'.toList) :
    let o := parse text limit
    let o' := parse text' limit
    o'.root = o.root ∧ o'.consumed = o.consumed ∧
      (∃ ds,
        o.diagnostics =
          ds ++ [.trailingText (String.ofList (text.toList.drop o.consumed)) o.consumed] ∧
        o'.diagnostics =
          ds ++ [.trailingText (String.ofList (text'.toList.drop o.consumed)) o.consumed]) ∧
      ∀ op : Operator, text.toList[o.consumed]? ≠ some op.symbol := by
  obtain ⟨taken, c, rest, tree, ds, split, salvages, ends⟩ := exists_salvages_of_left left
  have whole := parse_eq_of_left salvages ends split
  have common : text.toList.take (taken.length + 1) = taken ++ [c] := by
    rw [split, List.take_length_add_append]
    rfl
  have next : text.toList[taken.length]? = some c := by simp [split]
  rw [whole, common] at agree
  obtain ⟨rest', split'⟩ := agree
  rw [List.append_assoc, List.singleton_append] at split'
  have other := parse_eq_of_left salvages ends split'.symm
  intro o o'
  have ho : o = _ := whole
  have ho' : o' = _ := other
  rw [ho, ho', next]
  exact ⟨rfl, rfl, ⟨ds, rfl, rfl⟩, ends.ne_symbol⟩

/-- Behind the parenthesis that is not read, nothing counts. -/
theorem parse_lookahead_at_close :
    (parse "(1+)*2)3" 1).consumed = 6 ∧ (parse "(1+)*2)((+" 1).consumed = 6 ∧
      (parse "(1+)*2)((+" 1).root = (parse "(1+)*2)3" 1).root ∧
      ∃ ds, (parse "(1+)*2)3" 1).diagnostics = ds ++ [.trailingText ")3" 6] ∧
        (parse "(1+)*2)((+" 1).diagnostics = ds ++ [.trailingText ")((+" 6] := by
  have consumed : (parse "(1+)*2)3" 1).consumed = 6 := by decide +kernel
  have left : (parse "(1+)*2)3" 1).consumed < "(1+)*2)3".length := by
    rw [consumed]
    decide
  have agree : "(1+)*2)3".toList.take ((parse "(1+)*2)3" 1).consumed + 1) <+:
      "(1+)*2)((+".toList := by
    rw [consumed]
    decide
  obtain ⟨root, same, ⟨ds, found, found'⟩, -⟩ := parse_lookahead left agree
  rw [consumed] at same found found'
  exact ⟨consumed, same, root, ds, found, found'⟩

end ArithExpr
