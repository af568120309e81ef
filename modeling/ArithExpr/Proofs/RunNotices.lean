import ArithExpr.Proofs.NoticeLines
import ArithExpr.Proofs.Salvage
import ArithExpr.Proofs.Wording

/-! What a run notes. While it reads, it logs records that are no warnings
(`Options.exists_filter_progress`); then it closes with remarks (`Options.isRemark_closing`).
Neither a token file nor an expression without its blanks has a newline left, and a diagnostic
quotes nothing but the text, so every message is one line (`Options.newline_notMem_message`), and
with it every notice but the record of the path. -/

namespace ArithExpr

variable {part : Part} {limit opened position : Nat} {text : List Char} {next : Option Char}
  {tree : Option Expr} {ds : List Diagnostic}

/-! What is quoted stands in the text. -/

theorem Salvages.quoted_subset (h : Salvages limit part opened position text next tree ds) :
    ∀ d ∈ ds, ∀ c ∈ d.quoted, c ∈ text ∨ c ∈ next := by
  induction h with
  | literal => exact fun _ hd => absurd hd List.not_mem_nil
  | overflow | tooDeep =>
    intro d hd c hc
    rw [List.mem_singleton.1 hd] at hc
    cases hc
  | unexpected =>
    intro d hd c hc
    rw [List.mem_singleton.1 hd] at hc
    exact .inr (Option.mem_toList.1 hc)
  | closed _ _ ih =>
    intro d hd c hc
    left
    rcases ih d hd c hc with inside | behind
    · exact List.mem_append_left _ (List.mem_cons_of_mem _ inside)
    · exact List.mem_append_right _ (List.mem_singleton.2 (Option.mem_some.1 behind).symm)
  | unclosed _ _ _ _ ih =>
    intro d hd c hc
    rcases List.mem_append.1 hd with hd | hd
    · exact (ih d hd c hc).imp_left (List.mem_cons_of_mem _)
    · rw [List.mem_singleton.1 hd] at hc
      cases hc
  | operand _ _ ih => exact ih
  | chain _ _ _ ih_first ih_last =>
    intro d hd c hc
    rcases List.mem_append.1 hd with hd | hd
    · left
      rcases ih_first d hd c hc with inside | behind
      · exact List.mem_append_left _ inside
      · exact List.mem_append_right _ (List.mem_cons.2 (.inl (Option.mem_some.1 behind).symm))
    · apply (ih_last d hd c hc).imp_left
      intro inside
      exact List.mem_append_right _ (List.mem_cons_of_mem _ inside)

theorem quoted_subset_parse (text : String) (limit : Nat) :
    ∀ d ∈ (parse text limit).diagnostics, ∀ c ∈ d.quoted, c ∈ text.toList := by
  obtain ⟨taken, more, tree, ds, rfl, salvages, ends⟩ := exists_salvages_parse text limit
  rw [parse_eq_of_salvages salvages ends, String.toList_ofList]
  intro d hd c hc
  rcases List.mem_append.1 hd with hd | hd
  · rcases salvages.quoted_subset d hd c hc with inside | behind
    · exact List.mem_append_left _ inside
    · exact List.mem_append_right _ (List.mem_of_mem_head? behind)
  · rw [Diagnostic.eq_of_mem_leftover hd, Diagnostic.quoted, String.toList_ofList] at hc
    exact List.mem_append_right _ hc

theorem Diagnostic.errorLine_injective {d d' : Diagnostic} (h : d.errorLine = d'.errorLine) :
    d = d' :=
  message_injective ((String.append_right_inj _).1 h)

theorem Failure.message_rejected (d : Diagnostic) :
    message (.rejected d) = "Parse error: " ++ d.message := rfl

theorem Failure.message_emptyTree : message .emptyTree = "Parse produced no tree" := rfl

theorem Outcome.eq_of_strict_eq_error {outcome : Outcome} {f : Failure}
    (refused : outcome.strict = .error f) :
    f = .emptyTree ∨ ∃ d ∈ outcome.diagnostics, f = .rejected d := by
  unfold strict at refused
  split at refused
  · rename_i d ds found
    cases refused
    exact .inr ⟨d, found ▸ List.mem_cons_self, rfl⟩
  · split at refused
    · cases refused
    · cases refused
      exact .inl rfl

/-! Records of one line. -/

namespace Record

open Diagnostic (newline_notMem_toDigits)

theorem isOneLine_opening {path : String} (one_line : '\n' ∉ path.toList) :
    (opening path).IsOneLine := by
  simpa [IsOneLine, opening] using one_line

theorem isOneLine_found {d : Diagnostic} (one_line : '\n' ∉ d.message.toList) :
    (found d).IsOneLine := by
  simpa [IsOneLine, found, newline_notMem_toDigits] using one_line

theorem isOneLine_assembled (tokens : Nat) : (assembled tokens).IsOneLine := by
  simp [IsOneLine, assembled, newline_notMem_toDigits]

theorem isOneLine_completed {elapsed : String} (one_line : '\n' ∉ elapsed.toList)
    (root : Option Expr) : (completed elapsed root).IsOneLine := by
  simpa [IsOneLine, completed, newline_notMem_toDigits] using one_line

end Record

namespace Event

theorem isOneLine_record {e : Event} (untraced : e.severity ≠ .trace) : e.record.IsOneLine := by
  cases e with
  | started length =>
    simp [Record.IsOneLine, record, message, fields, Diagnostic.newline_notMem_toDigits]
  | recorded d => exact absurd rfl untraced
  | finished consumed diagnostics has_root =>
    have value : '\n' ∉ (toString has_root).toList := by cases has_root <;> decide
    simpa [Record.IsOneLine, record, message, fields, Diagnostic.newline_notMem_toDigits] using
      value

theorem severity_ne_warn (e : Event) : e.severity ≠ .warn := by
  cases e <;> exact nofun

end Event

namespace Command

theorem isErrorLine_errorLine (d : Diagnostic) : isErrorLine d.errorLine := by
  simp [isErrorLine, Diagnostic.errorLine]

theorem not_isErrorLine_failure (f : Failure) : ¬ isErrorLine f.errorLine := by
  simp [isErrorLine, Failure.errorLine]

/-- What can be relied on in the surroundings of a run. -/
structure Surroundings.Lawful (s : Surroundings) : Prop where
  style : s.style.Lawful
  elapsed : '\n' ∉ s.elapsed.toList
  crash : ∀ line ∈ Text.lines s.crash, ¬ beginsWithTime line ∧ ¬ isErrorLine line

theorem Surroundings.Lawful.later {s : Surroundings} (lawful : s.Lawful) : s.later.Lawful :=
  ⟨lawful.style, lawful.elapsed, lawful.crash⟩

namespace Options

variable {o : Options} {outcome : Outcome} {f : Failure} {text elapsed crash : String}
  {contents : String → Except ReadFault String} {n : Notice}

/-! No newline is read, and none is quoted. -/

theorem newline_notMem_input (readable : o.input contents = .ok text) : '\n' ∉ text.toList := by
  unfold input at readable
  split at readable
  · cases readable
    rw [Text.toList_withoutBlanks, List.mem_filter]
    rintro ⟨-, no_blank⟩
    exact absurd no_blank (by decide)
  · dsimp only at readable
    split at readable
    · cases readable
      rw [TokenFile.toList_assemble]
      exact TokenFile.newline_notMem_tokens _
    · cases readable

theorem newline_notMem_message (readable : o.input contents = .ok text) (limit : Nat) :
    ∀ d ∈ (parse text limit).diagnostics, '\n' ∉ d.message.toList := by
  intro d hd
  apply Diagnostic.newline_notMem_message
  intro newline
  exact newline_notMem_input readable (quoted_subset_parse text limit d hd _ newline)

theorem level_eq (o : Options) : o.level = .warn ∨ o.level = .debug := by
  unfold level
  cases o.verbose
  · exact .inl rfl
  · exact .inr rfl

/-! The progress. -/

theorem mem_progress {r : Record} (h : r ∈ o.progress elapsed text) :
    r = .assembled text.length ∨ (∃ e : Event, r = e.record) ∨
      ∃ root, r = .completed elapsed root := by
  simp only [progress, List.mem_append, List.mem_cons, List.mem_map, List.not_mem_nil,
    or_false] at h
  rcases h with (rfl | ⟨e, -, rfl⟩) | rfl
  · exact .inl rfl
  · exact .inr (.inl ⟨e, rfl⟩)
  · exact .inr (.inr ⟨_, rfl⟩)

theorem severity_ne_warn_of_mem_progress {r : Record} (h : r ∈ o.progress elapsed text) :
    r.severity ≠ .warn := by
  rcases mem_progress h with rfl | ⟨e, rfl⟩ | ⟨root, rfl⟩
  · exact nofun
  · exact e.severity_ne_warn
  · exact nofun

theorem isOneLine_of_mem_progress {r : Record} (no_newline : '\n' ∉ elapsed.toList)
    (h : r ∈ o.progress elapsed text) (untraced : r.severity ≠ .trace) : r.IsOneLine := by
  rcases mem_progress h with rfl | ⟨e, rfl⟩ | ⟨root, rfl⟩
  · exact Record.isOneLine_assembled _
  · exact Event.isOneLine_record untraced
  · exact Record.isOneLine_completed no_newline root

/-- Only warnings are shown. -/
theorem filter_progress_of_quiet (quiet : o.verbose = false) (elapsed text : String) :
    ((o.progress elapsed text).map .logged).filter (Notice.isShown o.level) = [] := by
  rw [List.filter_eq_nil_iff]
  intro n h
  obtain ⟨r, member, rfl⟩ := List.mem_map.1 h
  have no_warning := severity_ne_warn_of_mem_progress member
  rw [level, quiet]
  cases severity : r.severity with
  | warn => exact absurd severity no_warning
  | _ => simp [Notice.isShown, severity, Severity.rank]

theorem exists_filter_progress (loud : o.verbose = true) (elapsed text : String) :
    ∃ earlier root, ((o.progress elapsed text).map .logged).filter (Notice.isShown o.level) =
      earlier ++ [.logged (.completed elapsed root)] := by
  have shown (root : Option Expr) :
      Notice.isShown o.level (.logged (.completed elapsed root)) = true := by
    rw [level, loud]
    rfl
  rw [progress, List.map_append, List.filter_append, List.map_singleton,
    List.filter_cons_of_pos (shown _)]
  exact ⟨_, _, rfl⟩

theorem isOneLine_progress (no_newline : '\n' ∉ elapsed.toList) :
    ∀ n ∈ ((o.progress elapsed text).map .logged).filter (Notice.isShown o.level), n.IsOneLine := by
  intro n h
  obtain ⟨noted, shown⟩ := List.mem_filter.1 h
  obtain ⟨r, member, rfl⟩ := List.mem_map.1 noted
  apply isOneLine_of_mem_progress no_newline member
  intro traced
  rw [Notice.isShown, traced] at shown
  rcases o.level_eq with level | level <;> exact absurd shown (by rw [level]; decide)

/-! The closing. -/

theorem exists_said_of_mem_ending (h : n ∈ (o.ending crash outcome).notices) :
    ∃ line, n = .said line ∧ (line ∈ Text.lines crash ∨
      ∃ f : Failure, line = f.errorLine ∧
        (f = .emptyTree ∨ ∃ d ∈ outcome.diagnostics, f = .rejected d)) := by
  have printed {e : Expr} (h : n ∈ (o.print crash e).notices) :
      ∃ line, n = .said line ∧ line ∈ Text.lines crash := by
    unfold print at h
    split at h
    · cases h
    · obtain ⟨line, member, rfl⟩ := List.mem_map.1 h
      exact ⟨line, rfl, member⟩
  unfold ending at h
  split at h
  · split at h
    · obtain ⟨line, said, crashed⟩ := printed h
      exact ⟨line, said, .inl crashed⟩
    · rename_i f refused
      refine ⟨f.errorLine, List.mem_singleton.1 h, .inr ⟨f, rfl, ?_⟩⟩
      exact Outcome.eq_of_strict_eq_error refused
  · split at h
    · obtain ⟨line, said, crashed⟩ := printed h
      exact ⟨line, said, .inl crashed⟩
    · exact ⟨_, List.mem_singleton.1 h, .inr ⟨.emptyTree, rfl, .inl rfl⟩⟩

theorem mem_closing (h : n ∈ o.closing crash outcome) :
    (∃ d ∈ outcome.diagnostics, n = .logged (.found d) ∨ n = .said d.errorLine) ∨
      n ∈ (o.ending crash outcome).notices := by
  apply (List.mem_append.1 h).imp_left
  intro found
  obtain ⟨d, member, noted⟩ := List.mem_flatMap.1 found
  exact ⟨d, member, by simpa using noted⟩

theorem filter_closing (o : Options) (crash : String) (outcome : Outcome) :
    (o.closing crash outcome).filter (Notice.isShown o.level) = o.closing crash outcome := by
  have warns : Severity.warn.rank ≤ o.level.rank := by
    rcases o.level_eq with level | level
    · rw [level]
    · rw [level]
      decide
  rw [List.filter_eq_self]
  intro n h
  rcases mem_closing h with ⟨d, -, rfl | rfl⟩ | ends
  · exact decide_eq_true warns
  · rfl
  · obtain ⟨line, rfl, -⟩ := exists_said_of_mem_ending ends
    rfl

theorem isOneLine_closing (one_line : ∀ d ∈ outcome.diagnostics, '\n' ∉ d.message.toList) :
    ∀ n ∈ o.closing crash outcome, n.IsOneLine := by
  intro n h
  rcases mem_closing h with ⟨d, member, rfl | rfl⟩ | ends
  · exact Record.isOneLine_found (one_line d member)
  · simpa [Notice.IsOneLine, Diagnostic.errorLine] using one_line d member
  · obtain ⟨line, rfl, crashed | ⟨f, rfl, rfl | ⟨d, member, rfl⟩⟩⟩ := exists_said_of_mem_ending ends
    · exact Text.newline_notMem_lines crash line crashed
    · simp only [Notice.IsOneLine, Failure.errorLine, Failure.message_emptyTree]
      decide
    · simpa [Notice.IsOneLine, Failure.errorLine, Failure.message_rejected] using
        one_line d member

theorem isRemark_closing {s : Surroundings} (lawful : s.Lawful) (o : Options) (outcome : Outcome) :
    ∀ n ∈ o.closing s.crash outcome, n.IsRemark := by
  intro n h
  rcases mem_closing h with ⟨d, -, rfl | rfl⟩ | ends
  · rfl
  · simp [Notice.IsRemark, Diagnostic.errorLine, beginsWithTime]
  · obtain ⟨line, rfl, crashed | ⟨f, rfl, -⟩⟩ := exists_said_of_mem_ending ends
    · exact (lawful.crash line crashed).1
    · simp [Notice.IsRemark, Failure.errorLine, beginsWithTime]

theorem filterMap_findings (ds : List Diagnostic) :
    (findings ds).filterMap Notice.said? = ds.map Diagnostic.errorLine := by
  induction ds with
  | nil => rfl
  | cons d ds ih =>
    rw [List.map_cons, ← ih]
    rfl

theorem errorLines_closing {s : Surroundings} (lawful : s.Lawful) (o : Options)
    (outcome : Outcome) : ((o.closing s.crash outcome).filterMap Notice.said?).filter isErrorLine =
      outcome.diagnostics.map Diagnostic.errorLine := by
  have found : (outcome.diagnostics.map Diagnostic.errorLine).filter isErrorLine =
      outcome.diagnostics.map Diagnostic.errorLine := by
    simp [List.filter_eq_self, isErrorLine_errorLine]
  have ends : ((o.ending s.crash outcome).notices.filterMap Notice.said?).filter isErrorLine =
      [] := by
    rw [List.filter_eq_nil_iff]
    intro said h
    obtain ⟨n, member, is_said⟩ := List.mem_filterMap.1 h
    obtain ⟨line, rfl, crashed | ⟨f, rfl, -⟩⟩ := exists_said_of_mem_ending member
    · cases is_said
      exact (lawful.crash _ crashed).2
    · cases is_said
      exact not_isErrorLine_failure f
  rw [closing, List.filterMap_append, List.filter_append, filterMap_findings, found, ends,
    List.append_nil]

end Options

end Command

end ArithExpr
