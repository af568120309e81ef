import Mathlib.Data.List.Forall2
import ArithExpr.Command.Response

/-! Notices line by line. A log record without a newline takes one line, whatever the time, and so
does a line of the run itself (`Notice.exists_lines_texts`). Which of the two a line is shows in how
it begins, so what a run itself says is found again among the log (`Notice.filter_shows`), and a
line that shows how far a run has come cannot be taken for anything else
(`Notice.not_showsProgress`). -/

namespace ArithExpr

variable {style : LogStyle} {line : String} {r : Record}

theorem beginsWithTime_of_append_newline (h : beginsWithTime (line ++ "\n")) :
    beginsWithTime line := by
  rw [beginsWithTime, String.toList_append] at h
  rw [beginsWithTime]
  cases chars : line.toList with
  | nil =>
    rw [chars] at h
    exact absurd h (by decide)
  | cons c rest =>
    rw [chars] at h
    exact h

theorem exists_lines_of_beginsWithTime (begins : beginsWithTime line) :
    ∃ first others, Text.lines line = first :: others ∧ beginsWithTime first := by
  by_cases newline : '\n' ∈ line.toList
  · obtain ⟨first, others, split, first_line⟩ := List.eq_append_cons_of_mem newline
    refine ⟨String.ofList first, (others.splitOn '\n').map String.ofList, ?_, ?_⟩
    · rw [Text.lines, split, List.splitOn_append_cons_self_of_not_mem first_line, List.map_cons]
    · rw [beginsWithTime, split] at begins
      rw [beginsWithTime, String.toList_ofList]
      cases first with
      | nil =>
        have newline_first : ('\n'.isDigit || '\n' = '+' || '\n' = '\x1b') = true := begins
        exact absurd newline_first (by decide)
      | cons c rest => exact begins
  · exact ⟨line, [], Text.lines_of_line newline, begins⟩

/-- A record of which a line is shown. -/
theorem LogStyle.Lawful.exists_line (lawful : style.Lawful) (moment : Nat) (r : Record) :
    ∃ line, style moment r = line ++ "\n" ∧ beginsWithTime line ∧
      (r.IsOneLine → '\n' ∉ line.toList) := by
  obtain ⟨line, shown, one_line⟩ := lawful.ends moment r
  have begins := lawful.begins moment r
  rw [shown] at begins
  exact ⟨line, shown, beginsWithTime_of_append_newline begins, one_line⟩

namespace Command

/-- Whether a line that has the property cannot be of the log. -/
def IsOwn (p : String → Bool) : Prop := ∀ line, p line → ¬ beginsWithTime line

def isOwnLine (line : String) : Bool := !beginsWithTime line

def isErrorLine (line : String) : Bool := "error: ".toList.isPrefixOf line.toList

theorem isOwn_isOwnLine : IsOwn isOwnLine := by
  intro line own begins
  rw [isOwnLine, begins] at own
  cases own

theorem isOwn_isErrorLine : IsOwn isErrorLine := by
  intro line is_error begins
  rw [isErrorLine] at is_error
  rw [beginsWithTime] at begins
  cases chars : line.toList with
  | nil =>
    rw [chars] at is_error
    cases is_error
  | cons c rest =>
    rw [chars] at is_error begins
    have first : c = 'e' := by
      have same : ('e' == c && _) = true := is_error
      exact (beq_iff_eq.1 (Bool.and_eq_true_iff.1 same).1).symm
    subst first
    exact Bool.false_ne_true begins

namespace Notice

/-- The line that shows a notice, at whatever moment. -/
def Shows (style : LogStyle) : Notice → String → Prop
  | logged r, line => ∃ moment, style moment r = line ++ "\n"
  | said text, line => line = text

def IsOneLine : Notice → Prop
  | logged r => r.IsOneLine
  | said text => '\n' ∉ text.toList

/-- What a notice says if it is not of the log. -/
def said? : Notice → Option String
  | logged _ => none
  | said text => some text

variable {notices : List Notice} {ls : List String}

theorem exists_lines_texts (lawful : style.Lawful) (one_line : ∀ n ∈ notices, n.IsOneLine)
    (clock : Nat → Nat) :
    ∃ ls, texts style clock notices = ls.map (· ++ "\n") ∧ (∀ line ∈ ls, '\n' ∉ line.toList) ∧
      List.Forall₂ (Shows style) notices ls := by
  induction notices generalizing clock with
  | nil => exact ⟨[], rfl, nofun, .nil⟩
  | cons n notices ih =>
    obtain ⟨first, others⟩ := List.forall_mem_cons.1 one_line
    obtain ⟨ls, texts_eq, no_newline, shown⟩ := ih others fun n => clock (n + 1)
    rw [texts_cons, texts_eq]
    cases n with
    | logged r =>
      obtain ⟨line, text_eq, -, single⟩ := lawful.exists_line (clock 0) r
      refine ⟨line :: ls, ?_, List.forall_mem_cons.2 ⟨single first, no_newline⟩,
        .cons ⟨clock 0, text_eq⟩ shown⟩
      rw [List.map_cons, ← text_eq]
      rfl
    | said text =>
      exact ⟨text :: ls, rfl, List.forall_mem_cons.2 ⟨first, no_newline⟩, .cons rfl shown⟩

/-- Notices that are shown one after the other, part by part. -/
theorem exists_append_of_shows {others : List Notice}
    (shown : List.Forall₂ (Shows style) (notices ++ others) ls) :
    ∃ front back, ls = front ++ back ∧ List.Forall₂ (Shows style) notices front ∧
      List.Forall₂ (Shows style) others back :=
  ⟨ls.take notices.length, ls.drop notices.length, (List.take_append_drop ..).symm,
    (List.forall₂_take_append _ _ _ shown.flip).flip,
    (List.forall₂_drop_append _ _ _ shown.flip).flip⟩

theorem beginsWithTime_of_shows (lawful : style.Lawful) (shows : Shows style (.logged r) line) :
    beginsWithTime line := by
  obtain ⟨moment, shown⟩ := shows
  have begins := lawful.begins moment r
  rw [shown] at begins
  exact beginsWithTime_of_append_newline begins

theorem filter_shows {p : String → Bool} (own : IsOwn p) (lawful : style.Lawful)
    (shown : List.Forall₂ (Shows style) notices ls) :
    ls.filter p = (notices.filterMap said?).filter p := by
  induction shown with
  | nil => rfl
  | @cons n line notices ls shows _ ih =>
    cases n with
    | logged r =>
      have of_log : ¬ p line := fun h => own line h (beginsWithTime_of_shows lawful shows)
      have unsaid : (logged r).said? = none := rfl
      rw [List.filter_cons_of_neg of_log, List.filterMap_cons_none unsaid, ih]
    | said text =>
      obtain rfl : line = text := shows
      have given : (said line).said? = some line := rfl
      rw [List.filterMap_cons_some given, List.filter_cons, List.filter_cons, ih]

/-! Remarks: the notices that are no records of how far a run has come. -/

def IsRemark : Notice → Prop
  | logged r => r.severity = .warn
  | said text => ¬ beginsWithTime text

/-- A line that shows a record of how far a run has come. -/
def ShowsProgress (style : LogStyle) (line : String) : Prop :=
  ∃ r : Record, r.severity = .debug ∧ Shows style (.logged r) line

/-- A remark in a like style. -/
theorem not_showsProgress {style' : LogStyle} (lawful : style.Lawful) (agree : style.Agree style')
    (remarks : ∀ n ∈ notices, n.IsRemark) (shown : List.Forall₂ (Shows style') notices ls) :
    ∀ line ∈ ls, ¬ ShowsProgress style line := by
  induction shown with
  | nil => exact nofun
  | @cons n line notices ls shows _ ih =>
    obtain ⟨first, others⟩ := List.forall_mem_cons.1 remarks
    refine List.forall_mem_cons.2 ⟨?_, ih others⟩
    rintro ⟨r, debug, progress⟩
    cases n with
    | logged r' =>
      obtain ⟨moment, text_eq⟩ := progress
      obtain ⟨moment', text_eq'⟩ := shows
      have same := agree (text_eq.trans text_eq'.symm)
      rw [debug, (first : r'.severity = .warn)] at same
      cases same
    | said text =>
      obtain rfl : line = text := shows
      exact first (beginsWithTime_of_shows lawful progress)

theorem not_showsProgress_empty (lawful : style.Lawful) : ¬ ShowsProgress style "" := by
  rintro ⟨r, -, shows⟩
  exact absurd (beginsWithTime_of_shows lawful shows) (by decide)

end Notice

theorem Surroundings.exists_lines_write {s : Surroundings} {level : Severity}
    {notices : List Notice} (lawful : s.style.Lawful)
    (one_line : ∀ n ∈ notices.filter (Notice.isShown level), n.IsOneLine) :
    ∃ ls, Text.lines (s.write level notices) = ls ++ [""] ∧
      List.Forall₂ (Notice.Shows s.style) (notices.filter (Notice.isShown level)) ls := by
  obtain ⟨ls, texts_eq, no_newline, shown⟩ := Notice.exists_lines_texts lawful one_line s.clock
  refine ⟨ls, ?_, shown⟩
  rw [write, texts_eq, ← String.append_empty (s := String.join _),
    Text.lines_join_append no_newline]
  rfl

/-- Where two lists that are the same end in parts of one kind, and what stands before them does not
end in that kind, the two parts are the same. -/
theorem ends_eq {α : Type} {p : α → Prop} {front front' rest rest' : List α}
    (same : front ++ rest = front' ++ rest') (hr : ∀ a ∈ rest, p a) (hr' : ∀ a ∈ rest', p a)
    (hf : ∀ a ∈ front.getLast?, ¬ p a) (hf' : ∀ a ∈ front'.getLast?, ¬ p a) : rest = rest' := by
  have shorter {front rest middle : List α} (hr : ∀ a ∈ middle ++ rest, p a)
      (hf : ∀ a ∈ (front ++ middle).getLast?, ¬ p a) : middle = [] := by
    cases last : middle.getLast? with
    | none => exact List.getLast?_eq_none_iff.1 last
    | some a =>
      have member := List.mem_append_left rest (List.mem_of_getLast? last)
      refine absurd (hr a member) (hf a ?_)
      rw [List.getLast?_append, last]
      rfl
  rcases List.append_eq_append_iff.1 same with ⟨middle, rfl, rfl⟩ | ⟨middle, rfl, rfl⟩
  · rw [shorter hr hf', List.nil_append]
  · rw [shorter hr' hf, List.nil_append]

end Command

end ArithExpr
