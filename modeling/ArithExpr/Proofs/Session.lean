import ArithExpr.Proofs.Salvage
import ArithExpr.Proofs.Watch

/-! What callers can rely on between their calls, whatever the calls are. A call takes some text,
adds diagnostics whose places lie in that text, in this order, and leaves as many groups open as
before (`Proceeds`). This is kept when calls follow each other, so it holds between the first reader
of a session and every later one, and says there all that a session keeps (`InSession`). -/

namespace ArithExpr

/-- The diagnostics stand in the order of their places, which lie between `first` and `last`. -/
structure Diagnostic.InOrder (first last : Nat) (ds : List Diagnostic) : Prop where
  sorted : ds.Pairwise fun d e => d.position ≤ e.position
  within : ∀ d ∈ ds, first ≤ d.position ∧ d.position ≤ last

namespace Diagnostic.InOrder

variable {first middle last first' last' : Nat} {d : Diagnostic} {ds es : List Diagnostic}

theorem nil : InOrder first last [] := ⟨.nil, by simp⟩

theorem singleton (le : first ≤ d.position) (le' : d.position ≤ last) : InOrder first last [d] :=
  ⟨List.pairwise_singleton _ d, by simpa using ⟨le, le'⟩⟩

theorem widen (h : InOrder first last ds) (le : first' ≤ first) (le' : last ≤ last') :
    InOrder first' last' ds where
  sorted := h.sorted
  within := fun d hd => ⟨Nat.le_trans le (h.within d hd).1, Nat.le_trans (h.within d hd).2 le'⟩

theorem append (hl : InOrder first middle ds) (hr : InOrder middle last es)
    (le : first ≤ middle) (le' : middle ≤ last) : InOrder first last (ds ++ es) where
  sorted := List.pairwise_append.2 ⟨hl.sorted, hr.sorted, fun d hd e he =>
    Nat.le_trans (hl.within d hd).2 (hr.within e he).1⟩
  within := by
    intro d hd
    rcases List.mem_append.1 hd with hd | hd
    · exact (hl.widen (Nat.le_refl _) le').within d hd
    · exact (hr.widen le (Nat.le_refl _)).within d hd

end Diagnostic.InOrder

/-- A part finds its diagnostics from left to right. -/
theorem Salvages.inOrder {limit opened position : Nat} {part : Part} {text : List Char}
    {next : Option Char} {tree : Option Expr} {ds : List Diagnostic}
    (h : Salvages limit part opened position text next tree ds) :
    Diagnostic.InOrder position (position + text.length) ds := by
  induction h with
  | literal => exact .nil
  | overflow | unexpected | tooDeep => exact .singleton (Nat.le_refl _) (Nat.le_add_right _ _)
  | closed _ _ ih =>
    refine ih.widen (Nat.le_succ _) ?_
    simp only [List.length_append, List.length_cons]
    omega
  | @unclosed _ position text _ _ _ _ _ _ _ ih =>
    have place : position + ('(' :: text).length = position + 1 + text.length := by
      simp only [List.length_cons]
      omega
    rw [place]
    have inner := ih.widen (Nat.le_succ _) (Nat.le_refl _)
    exact inner.append (.singleton (Nat.le_refl _) (Nat.le_refl _)) (by omega) (Nat.le_refl _)
  | operand _ _ ih => exact ih
  | @chain op _ position left right _ _ _ _ _ _ _ _ ih_first ih_last =>
    have place : position + (left ++ op.symbol :: right).length =
        position + left.length + 1 + right.length := by
      simp only [List.length_append, List.length_cons]
      omega
    rw [place]
    exact (ih_first.widen (Nat.le_refl _) (Nat.le_succ _)).append ih_last (by omega) (by omega)

namespace Reader

/-- What any call does: it takes this text from `s` to `t`, finds these diagnostics in it, and
changes neither the number of open groups nor the limit. -/
structure Proceeds (s t : Reader) (text : List Char) (ds : List Diagnostic) : Prop extends
    s.Takes t text ds where
  depth_eq : t.depth = s.depth
  limit_eq : t.limit = s.limit
  inOrder : Diagnostic.InOrder s.position t.position ds

variable {s t u : Reader} {text more : List Char} {ds es : List Diagnostic} {c : Char}

namespace Proceeds

theorem position_le (h : s.Proceeds t text ds) : s.position ≤ t.position := by
  rw [h.position]
  exact Nat.le_add_right _ _

theorem diagnostics_prefix (h : s.Proceeds t text ds) : s.diagnostics <+: t.diagnostics :=
  ⟨ds, h.diagnostics.symm⟩

theorem refl (s : Reader) : s.Proceeds s [] [] where
  rest := rfl
  position := rfl
  diagnostics := (List.append_nil _).symm
  depth_eq := rfl
  limit_eq := rfl
  inOrder := .nil

theorem trans (first : s.Proceeds t text ds) (last : t.Proceeds u more es) :
    s.Proceeds u (text ++ more) (ds ++ es) where
  toTakes := first.toTakes.trans last.toTakes
  depth_eq := last.depth_eq.trans first.depth_eq
  limit_eq := last.limit_eq.trans first.limit_eq
  inOrder := first.inOrder.append last.inOrder first.position_le last.position_le

end Proceeds

theorem exists_proceeds_read (part : Part) (s : Reader) :
    ∃ text ds, s.Proceeds (s.read part).after text ds := by
  obtain ⟨read, -⟩ := reads_read part s
  obtain ⟨text, ds, takes, salvages⟩ := read.salvages
  have inOrder := salvages.inOrder
  rw [← takes.position] at inOrder
  exact ⟨text, ds, takes, read.depth_eq, read.limit_eq, inOrder⟩

theorem proceeds_integer (s : Reader) : s.Proceeds s.integer.2 s.digits [] := by
  have after : s.integer.2 = s.skip s.digits.length := s.skipDigits_eq
  rw [after]
  exact ⟨s.takes_digits, rfl, rfl, .nil⟩

theorem proceeds_skip (next : s.next? = some c) : s.Proceeds (s.skip 1) [c] [] :=
  ⟨takes_skip next, rfl, rfl, .nil⟩

theorem exists_proceeds_accept (s : Reader) (c : Char) :
    ∃ text, s.Proceeds (s.perform (.accept c)).2 text [] := by
  rcases s.after_accept c with refused | ⟨next, taken⟩
  · rw [refused]
    exact ⟨[], .refl s⟩
  · rw [taken]
    exact ⟨[c], proceeds_skip next⟩

theorem exists_proceeds_perform (s : Reader) (call : Call) :
    ∃ text ds, s.Proceeds (s.perform call).2 text ds := by
  cases call with
  | read part => exact s.exists_proceeds_read part
  | integer => exact ⟨_, _, s.proceeds_integer⟩
  | accept c =>
    obtain ⟨text, accept⟩ := s.exists_proceeds_accept c
    exact ⟨text, [], accept⟩

theorem exists_proceeds_performAll (s : Reader) (calls : List Call) :
    ∃ text ds, s.Proceeds (s.performAll calls) text ds := by
  induction calls generalizing s with
  | nil => exact ⟨[], [], .refl s⟩
  | cons call calls ih =>
    obtain ⟨text, ds, first⟩ := s.exists_proceeds_perform call
    obtain ⟨more, es, rest⟩ := ih (s.perform call).2
    exact ⟨_, _, first.trans rest⟩

theorem proceeds_reportRest (s : Reader) :
    s.Proceeds s.reportRest [] (Diagnostic.leftover s.position s.rest) := by
  unfold reportRest Diagnostic.leftover
  split
  · exact .refl s
  · exact ⟨s.takes_report _, rfl, rfl, .singleton (Nat.le_refl _) (Nat.le_refl _)⟩

theorem proceeds_note (s : Reader) (e : Event) : s.Proceeds (s.note e) [] [] :=
  ⟨⟨rfl, rfl, (List.append_nil _).symm⟩, rfl, rfl, .nil⟩

theorem exists_proceeds_readAll (s : Reader) : ∃ text ds, s.Proceeds s.readAll.2 text ds := by
  obtain ⟨text, ds, read⟩ := exists_proceeds_read .expression s.start
  have started := (proceeds_note s _).trans read
  exact ⟨_, _, (started.trans (proceeds_reportRest _)).trans (proceeds_note _ _)⟩

/-- What is always so of a reader in a session over this text. -/
structure InSession (text : String) (limit : Nat) (s : Reader) : Prop where
  position_le : s.position ≤ text.length
  rest_eq : s.rest = text.toList.drop s.position
  depth_eq : s.depth = 0
  limit_eq : s.limit = limit
  inOrder : Diagnostic.InOrder 0 s.position s.diagnostics

theorem Proceeds.inSession {whole : String} {limit : Nat}
    (h : (ofChars whole.toList limit).Proceeds t text ds) : InSession whole limit t := by
  have split : whole.toList = text ++ t.rest := h.rest
  have position : t.position = text.length := h.position.trans (Nat.zero_add _)
  have found : t.diagnostics = ds := h.diagnostics
  refine ⟨?_, ?_, h.depth_eq, h.limit_eq, found ▸ h.inOrder⟩
  · rw [position, ← String.length_toList, split, List.length_append]
    exact Nat.le_add_right _ _
  · rw [position, split, List.drop_left]

theorem InSession.length_eq {text : String} {limit : Nat} (h : InSession text limit s) :
    s.position + s.rest.length = text.length := by
  rw [h.rest_eq, List.length_drop, String.length_toList]
  exact Nat.add_sub_of_le h.position_le

theorem inSession_performAll (text : String) (limit : Nat) (calls : List Call) :
    InSession text limit ((ofChars text.toList limit).performAll calls) := by
  obtain ⟨_, _, before⟩ := exists_proceeds_performAll (ofChars text.toList limit) calls
  exact before.inSession

theorem InSession.readWatched_groups {text : String} {limit : Nat} (h : InSession text limit s)
    (part : Part) : s.readWatched (Watch.groups limit) () part = some (s.read part) :=
  Reader.readWatched_groups (h.depth_eq ▸ Nat.zero_le _) (Nat.le_of_eq h.limit_eq) part

/-- Whatever is called, and however often, each call leaves a reader that has not gone back, stands
in the text that it began with and keeps its limit. No group is open then, and never more than the
limit allows while a part is read. Diagnostics are only added behind those that are there; they
stand in the order of their places, and none is ahead of the reader. Only the reading of a part adds
any. All this is also so of the reading of the whole text that ends a session. -/
theorem session_invariant (text : String) (limit : Nat) (calls : List Call) :
    let s := (ofChars text.toList limit).performAll calls
    InSession text limit s ∧
      (∀ call, let t := (s.perform call).2
        InSession text limit t ∧ s.position ≤ t.position ∧ s.diagnostics <+: t.diagnostics ∧
          ((∀ part, call ≠ .read part) → t.diagnostics = s.diagnostics)) ∧
      (∀ part, s.readWatched (Watch.groups limit) () part = some (s.read part)) ∧
      let t := s.readAll.2
      InSession text limit t ∧ s.position ≤ t.position ∧ s.diagnostics <+: t.diagnostics ∧
        s.start.readWatched (Watch.groups limit) () .expression = some (s.start.read .expression) ∧
        s.outcome.diagnostics = t.diagnostics ∧ s.outcome.consumed = t.position := by
  intro s
  obtain ⟨_, _, before⟩ := exists_proceeds_performAll (ofChars text.toList limit) calls
  have here : InSession text limit s := before.inSession
  refine ⟨here, ?_, here.readWatched_groups, ?_⟩
  · intro call t
    obtain ⟨_, _, step⟩ := s.exists_proceeds_perform call
    refine ⟨(before.trans step).inSession, step.position_le, step.diagnostics_prefix, ?_⟩
    intro no_part
    cases call with
    | read part => exact absurd rfl (no_part part)
    | integer => exact s.proceeds_integer.diagnostics.trans (List.append_nil _)
    | accept c =>
      obtain ⟨_, accept⟩ := s.exists_proceeds_accept c
      exact accept.diagnostics.trans (List.append_nil _)
  · intro t
    obtain ⟨_, _, last⟩ := s.exists_proceeds_readAll
    have started : InSession text limit s.start := (before.trans (proceeds_note s _)).inSession
    exact ⟨(before.trans last).inSession, last.position_le, last.diagnostics_prefix,
      started.readWatched_groups .expression, rfl, rfl⟩

end Reader

end ArithExpr
