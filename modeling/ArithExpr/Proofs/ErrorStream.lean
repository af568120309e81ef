import ArithExpr.Proofs.PlainLog
import ArithExpr.Proofs.RunNotices

/-! The error stream of a run whose text could be read, line by line: first what the log says of the
path, which is more than one line if the path has a newline, then a line for each other notice
(`Options.exists_streamLines`). The diagnostics are read off the end of the stream, which goes back
to the last line that shows progress: there the log cannot be mistaken for anything else. -/

namespace ArithExpr.Command

/-- The lines of the error stream that could show diagnostics. -/
def Response.errorLines (r : Response) : List String := (Text.lines r.stderr).filter isErrorLine

/-- The lines of the error stream without the log. -/
def Response.ownLines (r : Response) : List String := (Text.lines r.stderr).filter isOwnLine

/-- The log shows a path that has a newline. -/
def Options.LogsNewline (o : Options) : Prop := ∃ path ∈ o.loggedPath?, '\n' ∈ path.toList

/-- What the log shows of a path that is opened. -/
def Surroundings.opened (s : Surroundings) (path? : Option String) : String :=
  path?.elim "" fun path => s.style (s.clock 0) (.opening path)

/-- The same, line by line. -/
def Surroundings.front (s : Surroundings) (path? : Option String) : List String :=
  (Text.lines (s.opened path?)).dropLast

namespace Surroundings

variable {s s' : Surroundings} {path : String} {path? : Option String} {line : String}

theorem front_none (s : Surroundings) : s.front none = [] := rfl

theorem front_of_shown (shown : s.style (s.clock 0) (.opening path) = line ++ "\n") :
    s.front (some path) = Text.lines line := by
  rw [front, opened, Option.elim_some, shown, Text.lines_ended, List.dropLast_concat]

theorem beginsWithTime_of_mem_front (lawful : s.style.Lawful)
    (one_line : ∀ path ∈ path?, '\n' ∉ path.toList) :
    ∀ line ∈ s.front path?, beginsWithTime line := by
  cases path? with
  | none =>
    rw [front_none]
    exact nofun
  | some path =>
    obtain ⟨line, shown, begins, single⟩ := lawful.exists_line (s.clock 0) (.opening path)
    have no_newline := single (Record.isOneLine_opening (one_line path rfl))
    rw [front_of_shown shown, Text.lines_of_line no_newline]
    exact List.forall_mem_singleton.2 begins

section

variable {p : String → Bool} (own : IsOwn p) (lawful : s.style.Lawful)

include own lawful

theorem filter_front_eq_nil {o : Options} (no_newline : ¬ o.LogsNewline) :
    (s.front o.loggedPath?).filter p = [] := by
  rw [List.filter_eq_nil_iff]
  intro line h is_own
  refine own line is_own (beginsWithTime_of_mem_front lawful ?_ line h)
  intro path logged newline
  exact no_newline ⟨path, logged, newline⟩

/-- Only the first of the lines has the time, and this one is of the log. -/
theorem filter_front_eq (same : s'.style = s.style) :
    (s'.front path?).filter p = (s.front path?).filter p := by
  cases path? with
  | none => rfl
  | some path =>
    obtain ⟨line, shown, begins, -⟩ := lawful.exists_line (s.clock 0) (.opening path)
    obtain ⟨line', shown', begins', -⟩ := lawful.exists_line (s'.clock 0) (.opening path)
    have continued := lawful.continues (s'.clock 0) (s.clock 0) (.opening path)
    rw [shown, shown', Text.lines_ended, Text.lines_ended] at continued
    rw [← same] at shown'
    rw [front_of_shown shown, front_of_shown shown']
    obtain ⟨first, others, split, dated⟩ := exists_lines_of_beginsWithTime begins
    obtain ⟨first', others', split', dated'⟩ := exists_lines_of_beginsWithTime begins'
    rw [split, split'] at continued ⊢
    have of_log : ¬ p first := fun h => own first h dated
    have of_log' : ¬ p first' := fun h => own first' h dated'
    rw [List.filter_cons_of_neg of_log, List.filter_cons_of_neg of_log',
      List.append_cancel_right continued]

end

end Surroundings

namespace Options

variable {s s' : Surroundings} {o : Options} {text : String} {middle rest : List String}

/-- The lines of the error stream, where those in the middle show the progress. -/
structure StreamLines (s : Surroundings) (o : Options) (text : String)
    (middle rest : List String) : Prop where
  lines_eq : Text.lines (o.respond s).stderr = (s.front o.loggedPath? ++ middle) ++ (rest ++ [""])
  progress : List.Forall₂ (Notice.Shows s.style)
    (((o.progress s.elapsed text).map .logged).filter (Notice.isShown o.level)) middle
  closing : List.Forall₂ (Notice.Shows s.style) (o.closing s.crash (parse text o.limit)) rest

/-- What follows the opening. -/
theorem exists_lines_notices (lawful : s.Lawful) (readable : o.input s.contents = .ok text) :
    let notices := (o.progress s.elapsed text).map .logged ++ o.closing s.crash (parse text o.limit)
    ∃ middle rest, Text.lines (s.write o.level notices) = middle ++ (rest ++ [""]) ∧
      List.Forall₂ (Notice.Shows s.style)
        (((o.progress s.elapsed text).map .logged).filter (Notice.isShown o.level)) middle ∧
      List.Forall₂ (Notice.Shows s.style) (o.closing s.crash (parse text o.limit)) rest := by
  intro notices
  have shown : notices.filter (Notice.isShown o.level) =
      ((o.progress s.elapsed text).map .logged).filter (Notice.isShown o.level) ++
        o.closing s.crash (parse text o.limit) := by
    rw [List.filter_append, filter_closing]
  have one_line : ∀ n ∈ notices.filter (Notice.isShown o.level), n.IsOneLine := by
    rw [shown, List.forall_mem_append]
    exact ⟨isOneLine_progress lawful.elapsed,
      isOneLine_closing (newline_notMem_message readable o.limit)⟩
  obtain ⟨ls, lines_eq, shows⟩ := Surroundings.exists_lines_write lawful.style one_line
  rw [shown] at shows
  obtain ⟨middle, rest, rfl, progress, closing⟩ := Notice.exists_append_of_shows shows
  exact ⟨middle, rest, lines_eq.trans (List.append_assoc ..), progress, closing⟩

theorem exists_streamLines (lawful : s.Lawful) (readable : o.input s.contents = .ok text) :
    ∃ middle rest, StreamLines s o text middle rest := by
  cases logged : o.loggedPath? with
  | none =>
    obtain ⟨middle, rest, lines_eq, progress, closing⟩ := exists_lines_notices lawful readable
    refine ⟨middle, rest, ?_, progress, closing⟩
    rw [stderr_respond readable, write_opening_of_none logged, logged]
    exact lines_eq
  | some path =>
    obtain ⟨middle, rest, lines_eq, progress, closing⟩ :=
      exists_lines_notices lawful.later readable
    obtain ⟨line, shown, -, -⟩ := lawful.style.exists_line (s.clock 0) (.opening path)
    refine ⟨middle, rest, ?_, progress, closing⟩
    rw [stderr_respond readable, write_opening_of_some logged, logged, s.front_of_shown shown,
      shown, Text.lines_append_newline, List.append_assoc]
    exact congrArg _ lines_eq

namespace StreamLines

section

variable {p : String → Bool} (own : IsOwn p) (lawful : s.Lawful)
  (lines : StreamLines s o text middle rest)

include own lawful lines

theorem filter_middle : middle.filter p = [] := by
  have unsaid : (((o.progress s.elapsed text).map .logged).filter
      (Notice.isShown o.level)).filterMap Notice.said? = [] := by
    rw [List.filterMap_eq_nil_iff]
    intro n h
    obtain ⟨r, -, rfl⟩ := List.mem_map.1 (List.mem_filter.1 h).1
    rfl
  rw [Notice.filter_shows own lawful.style lines.progress, unsaid]
  rfl

theorem filter_rest : rest.filter p =
    ((o.closing s.crash (parse text o.limit)).filterMap Notice.said?).filter p :=
  Notice.filter_shows own lawful.style lines.closing

theorem filter_lines : (Text.lines (o.respond s).stderr).filter p =
    (s.front o.loggedPath?).filter p ++
      ((o.closing s.crash (parse text o.limit)).filterMap Notice.said? ++ [""]).filter p := by
  rw [lines.lines_eq, List.filter_append, List.filter_append, List.filter_append,
    lines.filter_middle own lawful, lines.filter_rest own lawful, List.append_nil,
    List.filter_append]

end

/-! Where the end begins. -/

theorem not_showsProgress (lawful : s.Lawful) (agree : s.style.Agree s'.style)
    (lines : StreamLines s' o text middle rest) (lawful' : s'.Lawful) :
    ∀ line ∈ rest ++ [""], ¬ Notice.ShowsProgress s.style line := by
  rw [List.forall_mem_append]
  exact ⟨Notice.not_showsProgress lawful.style agree (isRemark_closing lawful' o _) lines.closing,
    List.forall_mem_singleton.2 (Notice.not_showsProgress_empty lawful.style)⟩

/-- A run that tells of its progress does so until it is over. -/
theorem showsProgress (lines : StreamLines s o text middle rest) :
    ∀ line ∈ (s.front o.loggedPath? ++ middle).getLast?, Notice.ShowsProgress s.style line := by
  cases verbose : o.verbose with
  | false =>
    have progress := lines.progress
    rw [filter_progress_of_quiet verbose] at progress
    have unlogged : o.loggedPath? = none := by simp [loggedPath?, verbose]
    rw [List.forall₂_nil_left_iff.1 progress, unlogged]
    exact nofun
  | true =>
    obtain ⟨earlier, root, shown⟩ := exists_filter_progress verbose s.elapsed text
    have progress := lines.progress
    rw [shown] at progress
    obtain ⟨front, back, rfl, -, last⟩ := Notice.exists_append_of_shows progress
    obtain ⟨line, behind, shows, ended, rfl⟩ := List.forall₂_cons_left_iff.1 last
    rw [List.forall₂_nil_left_iff.1 ended, ← List.append_assoc, List.getLast?_concat]
    rintro _ ⟨⟩
    exact ⟨_, rfl, shows⟩

end StreamLines

theorem errorLines_respond (lawful : s.Lawful) (readable : o.input s.contents = .ok text) :
    (o.respond s).errorLines = (s.front o.loggedPath?).filter isErrorLine ++
      (parse text o.limit).diagnostics.map Diagnostic.errorLine := by
  obtain ⟨middle, rest, lines⟩ := exists_streamLines lawful readable
  have last : [""].filter isErrorLine = [] := by decide
  rw [Response.errorLines, lines.filter_lines isOwn_isErrorLine lawful, List.filter_append,
    errorLines_closing lawful, last, List.append_nil]

theorem ownLines_respond (lawful : s.Lawful) (readable : o.input s.contents = .ok text) :
    (o.respond s).ownLines = (s.front o.loggedPath?).filter isOwnLine ++
      ((o.closing s.crash (parse text o.limit)).filterMap Notice.said? ++ [""]).filter
        isOwnLine := by
  obtain ⟨middle, rest, lines⟩ := exists_streamLines lawful readable
  exact lines.filter_lines isOwn_isOwnLine lawful

theorem diagnostics_eq_of_stderr_eq {o' : Options} {text' : String} (lawful : s.Lawful)
    (lawful' : s'.Lawful) (agree : s.style.Agree s'.style)
    (readable : o.input s.contents = .ok text) (readable' : o'.input s'.contents = .ok text')
    (same : (o'.respond s').stderr = (o.respond s).stderr) :
    (parse text' o'.limit).diagnostics = (parse text o.limit).diagnostics := by
  obtain ⟨middle, rest, lines⟩ := exists_streamLines lawful readable
  obtain ⟨middle', rest', lines'⟩ := exists_streamLines lawful' readable'
  have same_lines := lines'.lines_eq.symm.trans ((congrArg Text.lines same).trans lines.lines_eq)
  -- the end is all that follows the last line of progress in the one style or the other
  have same_end : rest' ++ [""] = rest ++ [""] :=
    ends_eq (p := fun line =>
        ¬ Notice.ShowsProgress s.style line ∧ ¬ Notice.ShowsProgress s'.style line) same_lines
      (fun line h => ⟨lines'.not_showsProgress lawful agree lawful' line h,
        lines'.not_showsProgress lawful' lawful'.style.agrees lawful' line h⟩)
      (fun line h => ⟨lines.not_showsProgress lawful lawful.style.agrees lawful line h,
        lines.not_showsProgress lawful' agree.symm lawful line h⟩)
      (fun line h ends => ends.2 (lines'.showsProgress line h))
      (fun line h ends => ends.1 (lines.showsProgress line h))
  have shown := lines.filter_rest isOwn_isErrorLine lawful
  rw [← List.append_cancel_right same_end, lines'.filter_rest isOwn_isErrorLine lawful',
    errorLines_closing lawful, errorLines_closing lawful'] at shown
  exact (List.map_inj_right fun _ _ => Diagnostic.errorLine_injective).1 shown

end Options

section

variable {arguments : List String} {o : Options} {text elapsed : String} {s : Surroundings}
  {contents : String → Except ReadFault String} {clock : Nat → Nat}

theorem Surroundings.lawful_plain (one_line : '\n' ∉ elapsed.toList) :
    (plain contents clock elapsed).Lawful where
  style := ArithExpr.lawful_plain
  elapsed := one_line
  crash line h := by
    have no_newline : '\n' ∉ "The tree is too high for an outline.".toList := by decide +kernel
    have single : line ∈ ["The tree is too high for an outline."] :=
      Text.lines_of_line no_newline ▸ h
    rw [List.mem_singleton.1 single]
    decide +kernel

/-- A run whose text can be read shows each diagnostic on a line of its own, in the order they were
found, and no message runs over its line. Other lines that begin in the same way can come before
them, but only where the log shows a path that has a newline. Different diagnostics have different
messages, whatever they quote. Even behind such a path, runs with the same error stream found the
same diagnostics. -/
theorem stderr_determines_diagnostics (lawful : s.Lawful)
    (run : Request.ofArguments arguments = .run o) (readable : o.input s.contents = .ok text) :
    let response := respond s arguments
    let found := (parse text o.limit).diagnostics
    (∃ others, response.errorLines = others ++ found.map Diagnostic.errorLine ∧
        (others ≠ [] → o.LogsNewline)) ∧
      (∀ d ∈ found, '\n' ∉ d.message.toList) ∧
      (∀ d d' : Diagnostic, d.message = d'.message → d = d') ∧
      ∀ (arguments' : List String) (o' : Options) (text' : String) (s' : Surroundings), s'.Lawful →
        s.style.Agree s'.style → Request.ofArguments arguments' = .run o' →
        o'.input s'.contents = .ok text' → (respond s' arguments').stderr = response.stderr →
        (parse text' o'.limit).diagnostics = found := by
  intro response found
  have answer : response = o.respond s := respond_of_run run
  refine ⟨⟨(s.front o.loggedPath?).filter isErrorLine, ?_, ?_⟩,
    Options.newline_notMem_message readable o.limit,
    fun _ _ => Diagnostic.message_injective, ?_⟩
  · rw [answer]
    exact Options.errorLines_respond lawful readable
  · intro others
    by_contra no_newline
    exact others (s.filter_front_eq_nil isOwn_isErrorLine lawful.style no_newline)
  · intro arguments' o' text' s' lawful' agree run' readable' same
    rw [answer, respond_of_run run'] at same
    exact Options.diagnostics_eq_of_stderr_eq lawful lawful' agree readable readable' same

/-- What is quoted here could be taken for the end of the quotation. -/
theorem stderr_determines_diagnostics_of_quotes :
    let s := Surroundings.plain (fun _ => .ok "7\n)\n'\n2") id "0.000012"
    let first := respond s ["-e", "1 )' 2"]
    let second := respond s ["tokens.txt"]
    s.Lawful ∧ s.style.Agree s.style ∧
      first.errorLines = ["error: Unexpected characters ')'2' after the expression at position 1"] ∧
      second.stderr = first.stderr ∧
      (parse "7)'2" 256).diagnostics = (parse "1)'2" 256).diagnostics := by
  intro s first second
  have lawful : s.Lawful := Surroundings.lawful_plain (by decide)
  have run : Request.ofArguments ["-e", "1 )' 2"] = .run { expr? := some "1 )' 2" } := by
    decide +kernel
  have run' : Request.ofArguments ["tokens.txt"] = .run { path? := some "tokens.txt" } := by
    decide +kernel
  have readable : Options.input { expr? := some "1 )' 2" } s.contents = .ok "1)'2" := by
    decide +kernel
  have readable' : Options.input { path? := some "tokens.txt" } s.contents = .ok "7)'2" := by
    decide +kernel
  have same : second.stderr = first.stderr := by decide +kernel
  have found : (parse "1)'2" 256).diagnostics = [.trailingText ")'2" 1] := by decide +kernel
  have agree := lawful.style.agrees
  obtain ⟨⟨others, shown, newline⟩, -, -, determined⟩ :=
    stderr_determines_diagnostics lawful run readable
  refine ⟨lawful, agree, ?_, same, determined _ _ _ s lawful agree run' readable' same⟩
  have no_others : others = [] := by
    by_contra some_other
    obtain ⟨path, logged, -⟩ := newline some_other
    cases logged
  change first.errorLines = others ++ (parse "1)'2" 256).diagnostics.map Diagnostic.errorLine
    at shown
  rw [shown, no_others, found]
  decide +kernel

/-- A text without a fault, in a file whose path shows as a line of its own and the beginning of
another. -/
theorem errorLines_of_path_with_newline :
    let s := Surroundings.plain (fun _ => .ok "1\n") id "0.000012"
    let arguments := ["-v", "a\nerror: b"]
    let o : Options := { path? := some "a\nerror: b", verbose := true }
    s.Lawful ∧ Request.ofArguments arguments = .run o ∧ o.input s.contents = .ok "1" ∧
      (parse "1" o.limit).diagnostics = [] ∧
      (respond s arguments).errorLines = ["error: b"] := by
  intro s arguments o
  have lawful : s.Lawful := Surroundings.lawful_plain (by decide)
  have run : Request.ofArguments arguments = .run o := by decide +kernel
  have readable : o.input s.contents = .ok "1" := by decide +kernel
  have faultless : (parse "1" o.limit).diagnostics = [] := by decide +kernel
  have opened : (s.front o.loggedPath?).filter isErrorLine = ["error: b"] := by decide +kernel
  refine ⟨lawful, run, readable, faultless, ?_⟩
  rw [respond_of_run run, Options.errorLines_respond lawful readable, faultless, opened]
  rfl

end

end ArithExpr.Command
