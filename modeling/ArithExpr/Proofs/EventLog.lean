import ArithExpr.Proofs.Session

/-! The log of a session beside its diagnostics. A reader that writes a diagnostic down notes it in
its log at the same time, and notes nothing else while it reads (`Logs`). So what is in the log is
the diagnostics in the order they were found, and the start and the end of the reading that ended
the session. -/

namespace ArithExpr

namespace Event

def isTrace (e : Event) : Bool := e.severity.name = "TRACE"

def isDebug (e : Event) : Bool := e.severity.name = "DEBUG"

/-- What the log shows of an event. -/
def entry (e : Event) : String × List (String × String) := (e.message, e.fields)

variable {length consumed diagnostics : Nat} {hasRoot : Bool} {ds es : List Diagnostic}

theorem filter_isTrace_recorded : (ds.map recorded).filter isTrace = ds.map recorded := by
  simp [isTrace, severity, Severity.name]

theorem filter_isDebug_recorded : (ds.map recorded).filter isDebug = [] := by
  simp [isDebug, severity, Severity.name]

theorem filter_isTrace_session :
    (ds.map recorded ++ started length :: es.map recorded ++
      [finished consumed diagnostics hasRoot]).filter isTrace = (ds ++ es).map recorded := by
  simp only [List.filter_append, List.filter_cons, filter_isTrace_recorded, List.map_append]
  exact List.append_nil _

theorem filter_isDebug_session :
    (ds.map recorded ++ started length :: es.map recorded ++
      [finished consumed diagnostics hasRoot]).filter isDebug =
        [started length, finished consumed diagnostics hasRoot] := by
  simp only [List.filter_append, List.filter_cons, filter_isDebug_recorded]
  rfl

end Event

namespace Reader

/-- From `s` to `t` a reader finds these diagnostics, and its log says so. -/
structure Logs (s t : Reader) (ds : List Diagnostic) : Prop where
  diagnostics : t.diagnostics = s.diagnostics ++ ds
  log : t.log = s.log ++ ds.map .recorded

variable {s t u : Reader} {ds es : List Diagnostic}

namespace Logs

theorem refl (s : Reader) : s.Logs s [] :=
  ⟨(List.append_nil _).symm, (List.append_nil _).symm⟩

theorem skip (s : Reader) (n : Nat) : s.Logs (s.skip n) [] := ⟨(refl s).diagnostics, (refl s).log⟩

theorem report (h : s.Logs t ds) (d : Diagnostic) : s.Logs (t.report d) (ds ++ [d]) where
  diagnostics := by rw [diagnostics_report, h.diagnostics, List.append_assoc]
  log := by rw [log_report, h.log, List.map_append, List.append_assoc, List.map_singleton]

theorem trans (first : s.Logs t ds) (last : t.Logs u es) : s.Logs u (ds ++ es) where
  diagnostics := by rw [last.diagnostics, first.diagnostics, List.append_assoc]
  log := by rw [last.log, first.log, List.map_append, List.append_assoc]

end Logs

end Reader

theorem Reads.logs {part : Part} {s t : Reader} {tree : Option Expr} (h : Reads part s tree t) :
    ∃ ds, s.Logs t ds := by
  induction h with
  | literal => exact ⟨_, .skip _ _⟩
  | overflow | tooDeep => exact ⟨_, (Reader.Logs.skip _ _).report _⟩
  | unexpected => exact ⟨_, (Reader.Logs.refl _).report _⟩
  | closed _ _ _ _ ih =>
    obtain ⟨ds, inner⟩ := ih
    exact ⟨ds, inner.diagnostics, inner.log⟩
  | @unclosed s t _ _ _ _ _ _ ih =>
    obtain ⟨ds, inner⟩ := ih
    have closed : s.Logs t.closeGroup ds := ⟨inner.diagnostics, inner.log⟩
    exact ⟨_, closed.report _⟩
  | operand _ _ ih => exact ih
  | chain _ _ _ _ ih_first ih_last =>
    obtain ⟨ds, first⟩ := ih_first
    obtain ⟨es, last⟩ := ih_last
    exact ⟨ds ++ es, first.trans ⟨last.diagnostics, last.log⟩⟩

namespace Reader

theorem exists_logs_read (part : Part) (s : Reader) : ∃ ds, s.Logs (s.read part).after ds := by
  obtain ⟨read, -⟩ := reads_read part s
  exact read.logs

theorem exists_logs_perform (s : Reader) (call : Call) : ∃ ds, s.Logs (s.perform call).2 ds := by
  cases call with
  | read part => exact exists_logs_read part s
  | integer =>
    rw [after_integer]
    exact ⟨_, .skip _ _⟩
  | accept c =>
    rcases s.after_accept c with refused | ⟨-, taken⟩
    · rw [refused]
      exact ⟨_, .refl s⟩
    · rw [taken]
      exact ⟨_, .skip s 1⟩

theorem exists_logs_performAll (s : Reader) (calls : List Call) :
    ∃ ds, s.Logs (s.performAll calls) ds := by
  induction calls generalizing s with
  | nil => exact ⟨_, .refl s⟩
  | cons call calls ih =>
    obtain ⟨ds, first⟩ := s.exists_logs_perform call
    obtain ⟨es, rest⟩ := ih (s.perform call).2
    exact ⟨ds ++ es, first.trans rest⟩

theorem exists_logs_reportRest (s : Reader) : ∃ ds, s.Logs s.reportRest ds := by
  unfold reportRest
  split
  · exact ⟨_, .refl s⟩
  · exact ⟨_, (Logs.refl s).report _⟩

/-- The reading that ends a session notes its start, the diagnostics that it finds, and its end. -/
theorem exists_log_readAll (s : Reader) : ∃ ds, s.outcome.diagnostics = s.diagnostics ++ ds ∧
    s.readAll.2.log = s.log ++ .started (s.position + s.rest.length) :: ds.map .recorded ++
      [.finished s.outcome.consumed s.outcome.diagnostics.length s.outcome.root.isSome] := by
  obtain ⟨ds, read⟩ := exists_logs_read .expression s.start
  obtain ⟨es, rest⟩ := exists_logs_reportRest (s.start.read .expression).after
  have all := read.trans rest
  have started : s.start.log = s.log ++ [.started (s.position + s.rest.length)] := log_note _ _
  have finished : s.readAll.2 = (s.start.read .expression).after.reportRest.note
    (.finished s.outcome.consumed s.outcome.diagnostics.length s.outcome.root.isSome) := rfl
  refine ⟨ds ++ es, all.diagnostics, ?_⟩
  rw [finished, log_note, all.log, started, List.append_assoc s.log, List.singleton_append]

/-- Whatever is called in a session, the log says of each diagnostic of the outcome that it was
recorded, where it is and what its message is, in the order of the diagnostics, and it says so of
nothing else. The reading that ends the session notes first that it starts, with the length of the
whole text, then the diagnostics that it finds, and last what it has come to. -/
theorem log_agrees_with_outcome (text : String) (limit : Nat) (calls : List Call) :
    let s := (ofChars text.toList limit).performAll calls
    let o := s.outcome
    let log := s.readAll.2.log
    (s.log = s.diagnostics.map .recorded ∧
      ∃ ds, o.diagnostics = s.diagnostics ++ ds ∧
        log = s.log ++ .started text.length :: ds.map .recorded ++
          [.finished o.consumed o.diagnostics.length o.root.isSome]) ∧
    (log.filter Event.isTrace).map Event.entry =
      o.diagnostics.map (fun d => ("diagnostic recorded",
        [("position", toString d.position), ("diagnostic", toString d)])) ∧
    (log.filter Event.isDebug).map Event.entry =
      [("parsing expression", [("length", toString text.length)]),
        ("parse finished", [("consumed", toString o.consumed),
          ("diagnostics", toString o.diagnostics.length),
          ("has_root", toString o.root.isSome)])] := by
  intro s o log
  obtain ⟨_, before⟩ := exists_logs_performAll (ofChars text.toList limit) calls
  have session : InSession text limit s := inSession_performAll text limit calls
  obtain ⟨ds, found, logged⟩ := s.exists_log_readAll
  have begun : s.log = s.diagnostics.map .recorded := by
    rw [before.log, before.diagnostics]
    rfl
  rw [session.length_eq] at logged
  have all : log = s.diagnostics.map .recorded ++ .started text.length :: ds.map .recorded ++
      [.finished o.consumed o.diagnostics.length o.root.isSome] := by
    rw [← begun]
    exact logged
  refine ⟨⟨begun, ds, found, logged⟩, ?_, ?_⟩
  · rw [all, Event.filter_isTrace_session, List.map_map, ← found]
    rfl
  · rw [all, Event.filter_isDebug_session]
    rfl

end Reader

end ArithExpr
