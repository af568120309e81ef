import ArithExpr.Proofs.Arguments
import ArithExpr.Proofs.ErrorStream
import ArithExpr.Proofs.MissingTree
import ArithExpr.Proofs.OutlineLayout

/-! Strict runs. A strict run accepts what is clean, and then answers as the plain run does. All
else it refuses for its first diagnostic, which is there because a tree is never missing without
one. It shows the same diagnostics in either case. A tree that is too high for an outline breaks off
either run. -/

namespace ArithExpr.Command

/-- Nothing was written but log records, none of them a warning. -/
def Surroundings.OnlyLogs (s : Surroundings) (level : Severity) (stderr : String) : Prop :=
  ∃ records : List Record, (∀ r ∈ records, r.severity ≠ .warn) ∧
    stderr = s.write level (records.map .logged)

/-- A plain answer to a text. -/
structure PlainAnswer (outcome : Outcome) (plain : Response) : Prop where
  plain_exits : plain.exit = 0 ∨ plain.exit = 1 ∨ plain.exit = 101
  plain_fails_iff : plain.exit = 1 ↔ outcome.root = none
  /-- The tree has a line that cannot be indented as far as it should be. -/
  plain_breaks_off_iff : plain.exit = 101 ↔ ∃ e, outcome.root = some e ∧
    ∃ line ∈ e.outlineLines 0, Expr.columnLimit < Text.indentation line

/-- A strict answer beside the plain one to the same text. Lines are counted with the empty one
behind the last newline. -/
structure StrictAnswer (s s' : Surroundings) (o : Options) (outcome : Outcome)
    (plain strict : Response) : Prop extends PlainAnswer outcome plain where
  errorLines_eq : strict.errorLines = plain.errorLines
  exits : strict.exit = 0 ∨ strict.exit = 1 ∨ strict.exit = 101
  accepts : strict.exit = 0 → plain.exit = 0 ∧ plain.stdout = strict.stdout ∧
    s.OnlyLogs o.level plain.stderr ∧ s'.OnlyLogs o.level strict.stderr
  accepts_silently : strict.exit = 0 → o.verbose = false → plain.stderr = "" ∧ strict.stderr = ""
  refuses : strict.exit = 1 → strict.stdout = "" ∧
    ∃ message earlier others lines,
      strict.errorLines = earlier ++ ("error: " ++ message) :: others ∧
      (earlier ≠ [] → o.LogsNewline) ∧
      outcome.diagnostics.map Diagnostic.errorLine = ("error: " ++ message) :: others ∧
      Text.lines strict.stderr = lines ++ ["Error: Parse error: " ++ message, ""] ∧
      ("Error: Parse produced no tree" ∈ Text.lines strict.stderr → o.LogsNewline)
  breaks_off : strict.exit = 101 → plain.exit = 101 ∧ plain.stdout = strict.stdout
  refuses_of_plain : plain.exit = 1 → strict.exit = 1

namespace Options

variable {o : Options} {outcome : Outcome} {d : Diagnostic} {ds : List Diagnostic} {e : Expr}
  {s s' : Surroundings} {text crash line : String}

theorem exit_print (o : Options) (crash : String) (e : Expr) :
    (o.print crash e).exit = if e.IsPrintable then 0 else 101 := by
  unfold print
  split <;> rfl

theorem exit_ending_of_lenient (lenient : o.strict = false) : (o.ending crash outcome).exit =
    outcome.root.elim 1 fun e => if e.IsPrintable then 0 else 101 := by
  unfold ending
  rw [lenient]
  cases outcome.root with
  | none => rfl
  | some e => exact o.exit_print crash e

theorem ending_of_isClean (clean : outcome.IsClean) (root : outcome.root = some e) :
    o.ending crash outcome = o.print crash e := by
  have accepted : outcome.strict = .ok e := Outcome.strict_eq_ok_iff.2 ⟨clean, root⟩
  unfold ending
  simp only [accepted, root, ite_self]

theorem ending_of_rejected (strict : o.strict = true) (found : outcome.diagnostics = d :: ds) :
    o.ending crash outcome = .fail "" (.rejected d) := by
  unfold ending
  rw [Outcome.strict_of_diagnostics_eq_cons found, strict]
  rfl

theorem plainAnswer (lenient : o.strict = false) (readable : o.input s.contents = .ok text) :
    PlainAnswer (parse text o.limit) (o.respond s) := by
  have plain_exit := (exit_respond readable).trans (exit_ending_of_lenient lenient)
  cases root : (parse text o.limit).root with
  | none =>
    have failed : (o.respond s).exit = 1 := by rw [plain_exit, root, Option.elim_none]
    constructor
    case plain_exits => exact .inr (.inl failed)
    case plain_fails_iff => exact iff_of_true failed root
    case plain_breaks_off_iff => simp [failed, root]
  | some e =>
    rw [root, Option.elim_some] at plain_exit
    by_cases printable : e.IsPrintable
    · have printed : (o.respond s).exit = 0 := plain_exit.trans (if_pos printable)
      constructor
      case plain_exits => exact .inl printed
      case plain_fails_iff => simp [printed, root]
      case plain_breaks_off_iff => simp [printed, root, ← Expr.not_isPrintable_iff, printable]
    · have broken : (o.respond s).exit = 101 := plain_exit.trans (if_neg printable)
      constructor
      case plain_exits => exact .inr (.inr broken)
      case plain_fails_iff => simp [broken, root]
      case plain_breaks_off_iff => simp [broken, root, ← Expr.not_isPrintable_iff, printable]

/-! What is written. -/

theorem severity_ne_warn_of_mem_records {r : Record}
    (h : r ∈ o.opening ++ o.progress s.elapsed text) : r.severity ≠ .warn := by
  rcases List.mem_append.1 h with opening | progress
  · obtain ⟨path, -, rfl⟩ := List.mem_map.1 opening
    exact nofun
  · exact severity_ne_warn_of_mem_progress progress

section

variable (readable : o.input s.contents = .ok text)
  (closed : o.closing s.crash (parse text o.limit) = [])

include readable closed

theorem onlyLogs_respond : s.OnlyLogs o.level (o.respond s).stderr := by
  refine ⟨o.opening ++ o.progress s.elapsed text, fun r => severity_ne_warn_of_mem_records, ?_⟩
  rw [stderr_respond readable, closed, List.append_nil, List.map_append]

theorem stderr_eq_empty (quiet : o.verbose = false) : (o.respond s).stderr = "" := by
  have unlogged : o.loggedPath? = none := by simp [loggedPath?, quiet]
  rw [stderr_respond readable, closed, List.append_nil, write_opening_of_none unlogged,
    Surroundings.write, filter_progress_of_quiet quiet]
  rfl

end

/-- The last line is what a run says in the end. -/
theorem exists_lines_eq_of_said (lawful : s.Lawful) (readable : o.input s.contents = .ok text)
    (ends : (o.ending s.crash (parse text o.limit)).notices = [.said line]) :
    ∃ lines, Text.lines (o.respond s).stderr = lines ++ [line, ""] := by
  obtain ⟨middle, rest, stream⟩ := exists_streamLines lawful readable
  have closing := stream.closing
  rw [Options.closing, ends] at closing
  obtain ⟨front, back, rfl, -, last⟩ := Notice.exists_append_of_shows closing
  obtain ⟨shown, behind, rfl, ended, rfl⟩ := List.forall₂_cons_left_iff.1 last
  rw [List.forall₂_nil_left_iff.1 ended] at stream
  refine ⟨s.front o.loggedPath? ++ middle ++ front, ?_⟩
  rw [stream.lines_eq]
  simp only [List.append_assoc, List.cons_append, List.nil_append]

theorem closing_of_isPrintable (clean : outcome.IsClean) (root : outcome.root = some e)
    (printable : e.IsPrintable) : o.closing crash outcome = [] := by
  rw [closing, clean.2, ending_of_isClean clean root, print, if_pos printable]
  rfl

/-- The two failures differ behind the word they share. -/
theorem errorLine_rejected_ne (d : Diagnostic) :
    (Failure.rejected d).errorLine ≠ (Failure.emptyTree).errorLine := by
  intro same
  have letter := congrArg (fun line => line.toList[13]?) same
  simp [Failure.errorLine, Failure.message_rejected, Failure.message_emptyTree] at letter

theorem emptyTree_notMem_lines (lawful : s.Lawful) (readable : o.input s.contents = .ok text)
    (no_newline : ¬ o.LogsNewline)
    (ends : (o.ending s.crash (parse text o.limit)).notices =
      [.said (Failure.rejected d).errorLine]) :
    Failure.emptyTree.errorLine ∉ Text.lines (o.respond s).stderr := by
  have own : IsOwn (· == Failure.emptyTree.errorLine) := by
    intro line same
    rw [eq_of_beq same]
    simp [beginsWithTime, Failure.errorLine]
  have unsaid : ((o.closing s.crash (parse text o.limit)).filterMap Notice.said? ++ [""]).filter
      (· == Failure.emptyTree.errorLine) = [] := by
    rw [closing, List.filterMap_append, filterMap_findings, ends, List.filter_eq_nil_iff]
    intro line member same
    obtain rfl := eq_of_beq same
    rcases List.mem_append.1 member with said | last
    · rcases List.mem_append.1 said with found | refused
      · obtain ⟨d, -, same⟩ := List.mem_map.1 found
        exact not_isErrorLine_failure .emptyTree (same ▸ isErrorLine_errorLine d)
      · exact errorLine_rejected_ne d (List.mem_singleton.1 refused).symm
    · exact absurd (List.mem_singleton.1 last) (by decide)
  obtain ⟨middle, rest, stream⟩ := exists_streamLines lawful readable
  have none_left := stream.filter_lines own lawful
  rw [s.filter_front_eq_nil own lawful.style no_newline, unsaid] at none_left
  intro member
  have left : Failure.emptyTree.errorLine ∈ (Text.lines (o.respond s).stderr).filter
      (· == Failure.emptyTree.errorLine) :=
    List.mem_filter.2 ⟨member, beq_self_eq_true _⟩
  rw [none_left] at left
  cases left

section

variable (lawful : s.Lawful) (lawful' : s'.Lawful) (lenient : o.strict = false)
  (readable : o.input s.contents = .ok text)
  (readable' : { o with strict := true }.input s'.contents = .ok text)

include lawful lawful' readable readable'

theorem errorLines_strict (same_style : s'.style = s.style) :
    ({ o with strict := true }.respond s').errorLines = (o.respond s).errorLines := by
  rw [errorLines_respond lawful' readable', errorLines_respond lawful readable]
  exact congrArg (· ++ _) (s.filter_front_eq isOwn_isErrorLine lawful.style same_style)

theorem strictAnswer_of_isClean (same_style : s'.style = s.style) (lenient : o.strict = false)
    (clean : (parse text o.limit).IsClean) :
    StrictAnswer s s' o (parse text o.limit) (o.respond s)
      ({ o with strict := true }.respond s') := by
  obtain ⟨e, root⟩ := Option.isSome_iff_exists.1 clean.1
  have plain : o.ending s.crash (parse text o.limit) = o.print s.crash e :=
    ending_of_isClean clean root
  have strict : { o with strict := true }.ending s'.crash (parse text o.limit) =
      o.print s'.crash e :=
    ending_of_isClean clean root
  have plain_exit : (o.respond s).exit = if e.IsPrintable then 0 else 101 := by
    rw [exit_respond readable, plain, exit_print]
  have strict_exit : ({ o with strict := true }.respond s').exit =
      if e.IsPrintable then 0 else 101 := by
    rw [exit_respond readable']
    exact (congrArg Ending.exit strict).trans (o.exit_print s'.crash e)
  have prints : (o.respond s).stdout = ({ o with strict := true }.respond s').stdout := by
    rw [stdout_respond readable, stdout_respond readable', plain]
    refine Eq.trans ?_ (congrArg Ending.stdout strict).symm
    unfold print
    split <;> rfl
  have printable_of_exit (h : ({ o with strict := true }.respond s').exit = 0) :
      e.IsPrintable := by
    rw [strict_exit] at h
    by_contra unprintable
    rw [if_neg unprintable] at h
    exact absurd h (by decide)
  constructor
  case toPlainAnswer => exact plainAnswer lenient readable
  case errorLines_eq => exact errorLines_strict lawful lawful' readable readable' same_style
  case exits =>
    rw [strict_exit]
    exact (ite_eq_or_eq _ _ _).imp_right .inr
  case accepts =>
    intro accepted
    have printable := printable_of_exit accepted
    refine ⟨plain_exit.trans (if_pos printable), prints, ?_, ?_⟩
    · exact onlyLogs_respond readable (closing_of_isPrintable clean root printable)
    · exact onlyLogs_respond readable' (closing_of_isPrintable clean root printable)
  case accepts_silently =>
    intro accepted quiet
    have printable := printable_of_exit accepted
    exact ⟨stderr_eq_empty readable (closing_of_isPrintable clean root printable) quiet,
      stderr_eq_empty readable' (closing_of_isPrintable clean root printable) quiet⟩
  case refuses =>
    rw [strict_exit]
    split <;> exact nofun
  case breaks_off => exact fun broken => ⟨plain_exit.trans (strict_exit.symm.trans broken), prints⟩
  case refuses_of_plain =>
    rw [plain_exit, strict_exit]
    exact id

theorem strictAnswer_of_rejected (same_style : s'.style = s.style) (lenient : o.strict = false)
    (found : (parse text o.limit).diagnostics = d :: ds) :
    StrictAnswer s s' o (parse text o.limit) (o.respond s)
      ({ o with strict := true }.respond s') := by
  have refused : { o with strict := true }.ending s'.crash (parse text o.limit) =
      .fail "" (.rejected d) :=
    ending_of_rejected rfl found
  have strict_exit : ({ o with strict := true }.respond s').exit = 1 := by
    rw [exit_respond readable']
    exact congrArg Ending.exit refused
  have refuses_all {exit : UInt8} (other : exit ≠ 1) :
      ({ o with strict := true }.respond s').exit ≠ exit := by
    rw [strict_exit]
    exact other.symm
  constructor
  case toPlainAnswer => exact plainAnswer lenient readable
  case errorLines_eq => exact errorLines_strict lawful lawful' readable readable' same_style
  case exits => exact .inr (.inl strict_exit)
  case accepts => exact fun accepted => absurd accepted (refuses_all (by decide))
  case accepts_silently => exact fun accepted => absurd accepted (refuses_all (by decide))
  case refuses =>
    intro _
    have said := congrArg Ending.notices refused
    obtain ⟨lines, lines_eq⟩ := exists_lines_eq_of_said lawful' readable' said
    have last : (Failure.rejected d).errorLine = "Error: Parse error: " ++ d.message := by
      rw [Failure.errorLine, Failure.message_rejected, ← String.append_assoc]
      rfl
    refine ⟨?_, d.message, (s'.front o.loggedPath?).filter isErrorLine,
      ds.map Diagnostic.errorLine, lines, ?_, ?_, ?_, ?_, ?_⟩
    · rw [stdout_respond readable']
      exact congrArg Ending.stdout refused
    · rw [errorLines_respond lawful' readable']
      exact congrArg _ (congrArg _ found)
    · intro earlier
      by_contra no_newline
      exact earlier (s'.filter_front_eq_nil isOwn_isErrorLine lawful'.style no_newline)
    · rw [found]
      rfl
    · rw [← last]
      exact lines_eq
    · intro member
      by_contra no_newline
      exact emptyTree_notMem_lines lawful' readable' no_newline said member
  case breaks_off => exact fun broken => absurd broken (refuses_all (by decide))
  case refuses_of_plain => exact fun _ => strict_exit

end

theorem respond_eq_of_unreadable {f : Failure} (unreadable : o.input s.contents = .error f) :
    o.respond s = ⟨1, "", s.opened o.loggedPath? ++ (f.errorLine ++ "\n")⟩ := by
  have said (s : Surroundings) : s.write o.level [.said f.errorLine] = f.errorLine ++ "\n" := by
    rw [Surroundings.write]
    exact String.join_cons.trans (String.append_empty ..)
  rw [respond_of_unreadable unreadable]
  cases logged : o.loggedPath? with
  | none =>
    rw [write_opening_of_none logged, said]
    exact congrArg (Response.mk 1 "") (String.empty_append ..).symm
  | some path =>
    rw [write_opening_of_some logged, said]
    rfl

end Options

variable {before after : List String} {o : Options} {s s' : Surroundings}

/-- An accepted command line that does not ask for strictness, and the same one with `--strict` put
in wherever an option can stand. It is accepted too. If the text cannot be read, both runs say so
and exit; if it can, their answers compare as `StrictAnswer` says. The runs log in the same style,
and find the same files, but each at its time. -/
theorem strict_run_agrees (place : IsOpenEnded before)
    (accepted : Request.ofArguments (before ++ after) = .run o) (lenient : o.strict = false)
    (lawful : s.Lawful) (lawful' : s'.Lawful) (same_style : s'.style = s.style)
    (same_contents : s'.contents = s.contents) :
    let plain := respond s (before ++ after)
    let strict := respond s' (before ++ "--strict" :: after)
    Request.ofArguments (before ++ "--strict" :: after) = .run { o with strict := true } ∧
      (∀ f, o.input s.contents = .error f →
        (∃ path fault, o.file? = some path ∧ f = .unreadable path fault) ∧
          plain = ⟨1, "", s.opened o.loggedPath? ++ (f.errorLine ++ "\n")⟩ ∧
          strict = ⟨1, "", s'.opened o.loggedPath? ++ (f.errorLine ++ "\n")⟩) ∧
      ∀ text, o.input s.contents = .ok text →
        StrictAnswer s s' o (parse text o.limit) plain strict := by
  intro plain strict
  have added := ofArguments_insert_strict place accepted lenient
  have plain_eq : plain = o.respond s := respond_of_run accepted
  have strict_eq : strict = { o with strict := true }.respond s' := respond_of_run added
  have same_input : { o with strict := true }.input s'.contents = o.input s.contents := by
    rw [same_contents]
    rfl
  refine ⟨added, ?_, ?_⟩
  · intro f unreadable
    rw [plain_eq, strict_eq]
    exact ⟨Options.exists_fault_of_input unreadable, Options.respond_eq_of_unreadable unreadable,
      Options.respond_eq_of_unreadable (same_input.trans unreadable)⟩
  · intro text readable
    have readable' := same_input.trans readable
    rw [plain_eq, strict_eq]
    by_cases clean : (parse text o.limit).IsClean
    · exact Options.strictAnswer_of_isClean lawful lawful' readable readable' same_style lenient
        clean
    · obtain ⟨d, ds, found⟩ := Reader.exists_diagnostics_eq_cons clean
      exact Options.strictAnswer_of_rejected lawful lawful' readable readable' same_style lenient
        found

/-- A plain run that prints a tree for a text that the strict one refuses. -/
theorem strict_run_agrees_on_lost_operand :
    let s := Surroundings.plain (fun _ => .ok "1\n+\n") id "0.000012"
    let o : Options := { path? := some "tokens.txt", unparse := true, verbose := true }
    let plain := respond s ["--unparse", "tokens.txt", "-v"]
    let strict := respond s.later ["--unparse", "--strict", "tokens.txt", "-v"]
    StrictAnswer s s.later o (parse "1+" 256) plain strict ∧ plain.exit = 0 ∧ strict.exit = 1 := by
  intro s o plain strict
  have place : IsOpenEnded ["--unparse"] := by
    constructor <;> decide +kernel
  have accepted : Request.ofArguments (["--unparse"] ++ ["tokens.txt", "-v"]) = .run o := by
    decide +kernel
  have lawful : s.Lawful := Surroundings.lawful_plain (by decide)
  obtain ⟨-, -, answers⟩ := strict_run_agrees place accepted rfl lawful lawful.later rfl rfl
  have readable : o.input s.contents = .ok "1+" := by decide +kernel
  refine ⟨answers _ readable, ?_, ?_⟩
  · decide +kernel
  · decide +kernel

/-- What the log shows of a path takes two lines here. The second one is all that a faultless run
has besides the log, or begins as the line of a diagnostic does. -/
theorem strict_run_shows_path :
    let s := Surroundings.plain (fun _ => .ok "1\n") id "0.000012"
    let faulty := Surroundings.plain (fun _ => .ok "1\n+\n") id "0.000012"
    let plain := respond s ["-v", "a\nb"]
    let strict := respond s ["-v", "--strict", "a\nb"]
    let refused := respond faulty ["-v", "--strict", "a\nerror: b"]
    s.Lawful ∧ strict.exit = 0 ∧ plain.stderr ≠ "" ∧ strict.stderr ≠ "" ∧
      strict.ownLines = ["b", ""] ∧ faulty.Lawful ∧ refused.exit = 1 ∧
      refused.errorLines =
        ["error: b", "error: Invalid character end of input found at position 2"] ∧
      ∃ lines, Text.lines refused.stderr = lines ++
        ["Error: Parse error: Invalid character end of input found at position 2", ""] := by
  intro s faulty plain strict refused
  have lawful : s.Lawful := Surroundings.lawful_plain (by decide)
  have lawful_faulty : faulty.Lawful := Surroundings.lawful_plain (by decide)
  let o : Options := { path? := some "a\nb", strict := true, verbose := true }
  let o' : Options := { path? := some "a\nerror: b", strict := true, verbose := true }
  have run : Request.ofArguments ["-v", "--strict", "a\nb"] = .run o := by decide +kernel
  have run' : Request.ofArguments ["-v", "--strict", "a\nerror: b"] = .run o' := by decide +kernel
  have readable : o.input s.contents = .ok "1" := by decide +kernel
  have readable' : o'.input faulty.contents = .ok "1+" := by decide +kernel
  have strict_eq : strict = o.respond s := respond_of_run run
  have refused_eq : refused = o'.respond faulty := respond_of_run run'
  refine ⟨lawful, by decide +kernel, by decide +kernel, by decide +kernel, ?_, lawful_faulty,
    by decide +kernel, ?_, ?_⟩
  · rw [strict_eq, Options.ownLines_respond lawful readable]
    decide +kernel
  · rw [refused_eq, Options.errorLines_respond lawful_faulty readable']
    decide +kernel
  · rw [refused_eq]
    apply Options.exists_lines_eq_of_said lawful_faulty readable'
    decide +kernel

end ArithExpr.Command
