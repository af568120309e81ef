import ArithExpr.Proofs.Session

/-! A tree is never missing without a cause. A part comes to no tree only if its leftmost operand is
lost, and a lost operand is reported where it should have been (`Salvages.exists_lostOperand`). So a
text in which nothing was found wrong has a tree and was read to its end, and an outcome that is
taken strictly never fails for want of a tree. -/

namespace ArithExpr

/-- An operand could not be read. -/
def Diagnostic.isLostOperand : Diagnostic → Bool
  | unexpectedCharacter .. => true
  | invalidInteger .overflow _ => true
  | tooDeep .. => true
  | _ => false

variable {part : Part} {limit opened position p : Nat} {text : List Char} {next : Option Char}
  {tree : Option Expr} {ds : List Diagnostic} {op : Operator} {l r : Option Expr}

theorem Expr.combine?_eq_none_iff : combine? op l r = none ↔ l = none := by
  cases l <;> cases r <;> simp [combine?]

theorem Salvages.exists_lostOperand (h : Salvages limit part opened position text next tree ds)
    (no_tree : tree = none) : ∃ d ∈ ds, d.isLostOperand := by
  induction h with
  | literal => cases no_tree
  | overflow | unexpected | tooDeep => exact ⟨_, List.mem_cons_self, rfl⟩
  | closed _ _ ih => exact ih no_tree
  | unclosed _ _ _ _ ih =>
    obtain ⟨d, hd, lost⟩ := ih no_tree
    exact ⟨d, List.mem_append_left _ hd, lost⟩
  | operand _ _ ih => exact ih no_tree
  | chain _ _ _ ih_first _ =>
    -- the operands behind the first one never cost a chain its tree
    obtain ⟨d, hd, lost⟩ := ih_first (Expr.combine?_eq_none_iff.1 no_tree)
    exact ⟨d, List.mem_append_left _ hd, lost⟩

/-- A missing digit is reported as the character that stands in its place. -/
theorem Salvages.noLeadingDigit_notMem (h : Salvages limit part opened position text next tree ds) :
    .invalidInteger .noLeadingDigit p ∉ ds := by
  induction h with
  | literal => exact List.not_mem_nil
  | overflow | unexpected | tooDeep => simp
  | closed _ _ ih => exact ih
  | unclosed _ _ _ _ ih => simpa using ih
  | operand _ _ ih => exact ih
  | chain _ _ _ ih_first ih_last =>
    intro found
    rcases List.mem_append.1 found with found | found
    · exact ih_first found
    · exact ih_last found

theorem Diagnostic.noLeadingDigit_notMem_leftover {rest : List Char} :
    .invalidInteger .noLeadingDigit p ∉ leftover position rest := by
  intro found
  cases eq_of_mem_leftover found

namespace Outcome

variable {o : Outcome} {e : Expr}

theorem strict_eq_ok_iff : o.strict = .ok e ↔ o.IsClean ∧ o.root = some e := by
  unfold strict IsClean
  split
  · simp_all
  · split <;> simp_all

theorem strict_of_diagnostics_eq_cons {d : Diagnostic} (found : o.diagnostics = d :: ds) :
    o.strict = .error (.rejected d) := by
  simp [strict, found]

end Outcome

namespace Reader

variable {s : Reader}

theorem exists_lostOperand_read (part : Part) (s : Reader) :
    ∃ ds, (s.read part).after.diagnostics = s.diagnostics ++ ds ∧
      (∀ p, .invalidInteger .noLeadingDigit p ∉ ds) ∧
      ((s.read part).tree = none → ∃ d ∈ ds, d.isLostOperand) := by
  obtain ⟨read, -⟩ := reads_read part s
  obtain ⟨text, ds, takes, salvages⟩ := read.salvages
  exact ⟨ds, takes.diagnostics, fun _ => salvages.noLeadingDigit_notMem,
    salvages.exists_lostOperand⟩

theorem noLeadingDigit_notMem_perform
    (none_before : .invalidInteger .noLeadingDigit p ∉ s.diagnostics) (call : Call) :
    .invalidInteger .noLeadingDigit p ∉ (s.perform call).2.diagnostics := by
  cases call with
  | read part =>
    obtain ⟨ds, added, none_added, -⟩ := exists_lostOperand_read part s
    simp only [perform, added, List.mem_append, not_or]
    exact ⟨none_before, none_added p⟩
  | integer =>
    have same := s.proceeds_integer.diagnostics
    rw [List.append_nil] at same
    simpa only [perform, same] using none_before
  | accept c =>
    obtain ⟨text, accepted⟩ := s.exists_proceeds_accept c
    rw [accepted.diagnostics, List.append_nil]
    exact none_before

theorem noLeadingDigit_notMem_performAll
    (none_before : .invalidInteger .noLeadingDigit p ∉ s.diagnostics) (calls : List Call) :
    .invalidInteger .noLeadingDigit p ∉ (s.performAll calls).diagnostics := by
  induction calls generalizing s with
  | nil => exact none_before
  | cons call calls ih => exact ih (noLeadingDigit_notMem_perform none_before call)

/-- What reading the whole rest of a text adds to the diagnostics. -/
theorem exists_diagnostics_outcome (s : Reader) :
    ∃ ds, s.outcome.diagnostics = s.diagnostics ++ ds ∧
      (∀ p, .invalidInteger .noLeadingDigit p ∉ ds) ∧
      (s.outcome.root = none → ∃ d ∈ ds, d.isLostOperand) := by
  obtain ⟨tree, t, read, isOver, outcome⟩ := s.exists_reads_outcome
  obtain ⟨text, ds, takes, salvages⟩ := read.salvages
  have found : t.diagnostics = s.diagnostics ++ ds := takes.diagnostics
  refine ⟨ds ++ Diagnostic.leftover t.position t.rest, ?_, ?_, ?_⟩
  · rw [outcome, diagnostics_reportRest, found, List.append_assoc]
  · intro p added
    rcases List.mem_append.1 added with added | added
    · exact salvages.noLeadingDigit_notMem added
    · exact Diagnostic.noLeadingDigit_notMem_leftover added
  · rw [outcome]
    intro no_tree
    obtain ⟨d, hd, lost⟩ := salvages.exists_lostOperand no_tree
    exact ⟨d, List.mem_append_left _ hd, lost⟩

theorem root_isSome_of_diagnostics_eq_nil (sound : s.outcome.diagnostics = []) :
    s.outcome.root.isSome := by
  obtain ⟨ds, found, -, cause⟩ := s.exists_diagnostics_outcome
  rw [sound] at found
  obtain ⟨-, rfl⟩ := List.append_eq_nil_iff.1 found.symm
  by_contra no_root
  obtain ⟨d, hd, -⟩ := cause (Option.not_isSome_iff_eq_none.1 no_root)
  exact List.not_mem_nil hd

/-- An outcome that is not clean has a first diagnostic. -/
theorem exists_diagnostics_eq_cons (faulty : ¬ s.outcome.IsClean) :
    ∃ d ds, s.outcome.diagnostics = d :: ds := by
  apply List.exists_cons_of_ne_nil
  intro sound
  exact faulty ⟨root_isSome_of_diagnostics_eq_nil sound, sound⟩

theorem InSession.consumed_eq_of_diagnostics_eq_nil {text : String}
    (session : InSession text limit s) (sound : s.outcome.diagnostics = []) :
    s.outcome.consumed = text.length := by
  obtain ⟨tree, t, read, -, outcome⟩ := s.exists_reads_outcome
  obtain ⟨taken, ds, takes, -⟩ := read.salvages
  rw [outcome] at sound ⊢
  obtain ⟨nothing_left, -⟩ := diagnostics_reportRest_eq_nil_iff.1 sound
  have rest : s.rest = taken := by simpa [nothing_left] using takes.rest
  rw [← session.length_eq, rest]
  exact takes.position

/-- Whatever was called before, a part that comes to no tree leaves a new diagnostic behind, which
says that an operand was lost; that a digit is missing is never written down. So the whole reading
that ends a session has a tree and reaches the end of the text if nothing was found wrong. Taken
strictly, its outcome is the tree if it is clean and the first diagnostic if it is not, and it never
fails for want of a tree. -/
theorem missing_tree_is_reported (text : String) (limit : Nat) (calls : List Call) :
    let s := (ofChars text.toList limit).performAll calls
    let o := s.outcome
    (∀ part, ∃ ds, (s.read part).after.diagnostics = s.diagnostics ++ ds ∧
      ((s.read part).tree = none → ∃ d ∈ ds, d.isLostOperand)) ∧
    (∀ p, .invalidInteger .noLeadingDigit p ∉ s.diagnostics ∧
      .invalidInteger .noLeadingDigit p ∉ o.diagnostics) ∧
    (o.diagnostics = [] → o.root.isSome ∧ o.consumed = text.length) ∧
    (∀ e, o.strict = .ok e ↔ o.IsClean ∧ o.root = some e) ∧
    (¬ o.IsClean → ∃ d ds, o.diagnostics = d :: ds ∧ o.strict = .error (.rejected d)) ∧
    o.strict ≠ .error .emptyTree := by
  intro s o
  have session : InSession text limit s := inSession_performAll text limit calls
  have rejected : ¬ o.IsClean →
      ∃ d ds, o.diagnostics = d :: ds ∧ o.strict = .error (.rejected d) := by
    intro faulty
    obtain ⟨d, ds, found⟩ := exists_diagnostics_eq_cons faulty
    exact ⟨d, ds, found, Outcome.strict_of_diagnostics_eq_cons found⟩
  refine ⟨?_, ?_, ?_, fun e => Outcome.strict_eq_ok_iff, rejected, ?_⟩
  · intro part
    obtain ⟨ds, added, -, cause⟩ := exists_lostOperand_read part s
    exact ⟨ds, added, cause⟩
  · intro p
    have none_before : .invalidInteger .noLeadingDigit p ∉ s.diagnostics :=
      noLeadingDigit_notMem_performAll List.not_mem_nil calls
    obtain ⟨ds, found, none_added, -⟩ := s.exists_diagnostics_outcome
    refine ⟨none_before, ?_⟩
    rw [found, List.mem_append, not_or]
    exact ⟨none_before, none_added p⟩
  · intro sound
    exact ⟨root_isSome_of_diagnostics_eq_nil sound, session.consumed_eq_of_diagnostics_eq_nil sound⟩
  · by_cases clean : o.IsClean
    · obtain ⟨e, he⟩ := Option.isSome_iff_exists.1 clean.1
      rw [Outcome.strict_eq_ok_iff.2 ⟨clean, he⟩]
      exact nofun
    · obtain ⟨d, ds, -, failed⟩ := rejected clean
      rw [failed]
      exact nofun

end Reader

end ArithExpr
