import Mathlib.Data.List.Basic
import ArithExpr.Decimal
import ArithExpr.Log.Line

/-! The plain style of a log is lawful: a time is written without spaces, so that the severity
stands behind the first space of a line. -/

namespace ArithExpr

variable {moment n width : Nat} {c : Char} {r : Record}

theorem isDigit_of_mem_padded (h : c ∈ padded width n) : c.isDigit := by
  rw [padded, List.leftpad, List.mem_append, List.mem_replicate] at h
  rcases h with ⟨-, rfl⟩ | digit
  · decide
  · exact Decimal.isDigit_of_mem_toDigits digit

theorem padded_ne_nil (width n : Nat) : padded width n ≠ [] := by
  rw [padded, List.leftpad]
  simp

/-- What a time has besides digits. -/
def isTimeMark (c : Char) : Bool := c ∈ ['+', '-', 'T', ':', '.', 'Z']

def IsTime (chars : List Char) : Prop := ∀ c ∈ chars, c.isDigit ∨ isTimeMark c

namespace IsTime

variable {front rest : List Char}

theorem digits (width n : Nat) : IsTime (padded width n) :=
  fun _ h => .inl (isDigit_of_mem_padded h)

theorem append (first : IsTime front) (second : IsTime rest) : IsTime (front ++ rest) :=
  List.forall_mem_append.2 ⟨first, second⟩

theorem mark (is_mark : isTimeMark c) (behind : IsTime rest) : IsTime (c :: rest) :=
  List.forall_mem_cons.2 ⟨.inr is_mark, behind⟩

theorem date (d : Date) : IsTime d.chars := by
  have sign : IsTime (if 9999 < d.year then ['+'] else []) := by
    split
    · exact mark (by decide) nofun
    · exact nofun
  have month : IsTime ('-' :: padded 2 d.month) := mark (by decide) (digits 2 d.month)
  have day : IsTime ('-' :: padded 2 d.day) := mark (by decide) (digits 2 d.day)
  exact sign.append (((digits 4 d.year).append month).append day)

theorem ofDay (moment : Nat) : IsTime (timeOfDay moment) := by
  have colon (n : Nat) : IsTime (':' :: padded 2 n) := mark (by decide) (digits 2 n)
  have point (n : Nat) : IsTime ('.' :: padded 6 n) := mark (by decide) (digits 6 n)
  exact (((digits 2 _).append (colon _)).append (colon _)).append (point _)

theorem stamp (moment : Nat) : IsTime (timeStamp moment) :=
  ((date _).append (mark (by decide) (ofDay moment))).append (mark (by decide) nofun)

end IsTime

theorem exists_timeStamp_eq_cons (moment : Nat) :
    ∃ c rest, timeStamp moment = c :: rest ∧ (c.isDigit ∨ c = '+') := by
  have date (d : Date) : ∃ c rest, d.chars = c :: rest ∧ (c.isDigit ∨ c = '+') := by
    obtain ⟨c, rest, year⟩ := List.exists_cons_of_ne_nil (padded_ne_nil 4 d.year)
    have digit : c.isDigit := isDigit_of_mem_padded (year ▸ List.mem_cons_self)
    rw [Date.chars, year]
    split
    · exact ⟨'+', _, rfl, .inr rfl⟩
    · exact ⟨c, _, rfl, .inl digit⟩
  obtain ⟨c, rest, chars, first⟩ := date (Date.ofDays (moment / 86400000000))
  exact ⟨c, rest ++ 'T' :: timeOfDay moment ++ ['Z'], by rw [timeStamp, chars]; rfl, first⟩

/-- What is put in front of a record. -/
structure IsStamp (stamp : List Char) : Prop where
  begins (rest : String) : beginsWithTime (String.ofList stamp ++ rest)
  no_space : ' ' ∉ stamp
  no_newline : '\n' ∉ stamp

theorem isStamp_timeStamp (moment : Nat) : IsStamp (timeStamp moment) where
  begins rest := by
    obtain ⟨c, others, chars, first⟩ := exists_timeStamp_eq_cons moment
    rw [beginsWithTime, String.toList_append, String.toList_ofList, chars]
    rcases first with digit | rfl
    · simp [digit]
    · simp
  no_space h := (IsTime.stamp moment ' ' h).elim (by decide) (by decide)
  no_newline h := (IsTime.stamp moment '\n' h).elim (by decide) (by decide)

theorem dropWhile_isStamp {stamp rest : List Char} (is_stamp : IsStamp stamp) :
    (stamp ++ ' ' :: rest).dropWhile (· ≠ ' ') = ' ' :: rest := by
  have kept : ∀ c ∈ stamp, decide (c ≠ ' ') = true := by
    intro c h
    rw [decide_eq_true_iff]
    exact ne_of_mem_of_not_mem h is_stamp.no_space
  rw [List.dropWhile_append_of_pos kept]
  rfl

/-- The moment decides about what is in front, and about nothing else. -/
theorem exists_isStamp (moment : Nat) : ∃ stamp, IsStamp stamp ∧
    ∀ r, LogStyle.plain moment r = String.ofList stamp ++ (" " ++ r.text ++ "\n") := by
  refine ⟨timeStamp moment, isStamp_timeStamp moment, fun r => ?_⟩
  simp [LogStyle.plain, String.append_assoc]

theorem length_tag (severity : Severity) : severity.tag.length = 5 := by
  cases severity <;> decide

theorem tag_injective : Function.Injective Severity.tag := by
  intro a b same
  cases a <;> cases b <;> first | rfl | exact absurd same (by decide)

theorem newline_notMem_tag (severity : Severity) : '\n' ∉ severity.tag := by
  cases severity <;> decide

theorem newline_notMem_text (one_line : r.IsOneLine) : '\n' ∉ r.text.toList := by
  obtain ⟨message, fields⟩ := one_line
  have values : '\n' ∉ (String.join (r.fields.map fieldText)).toList := by
    rw [String.toList_join, List.mem_flatMap]
    rintro ⟨shown, member, newline⟩
    obtain ⟨field, given, rfl⟩ := List.mem_map.1 member
    obtain ⟨name, value⟩ := fields field given
    simp [fieldText, name, value] at newline
  simp only [Record.text, String.toList_append, String.toList_ofList, List.mem_append, not_or]
  exact ⟨⟨⟨newline_notMem_tag _, by decide⟩, message⟩, values⟩

theorem exists_text_eq_tag_append (r : Record) :
    ∃ rest, r.text.toList = r.severity.tag ++ rest := by
  simp only [Record.text, String.append_assoc, String.toList_append, String.toList_ofList]
  exact ⟨_, rfl⟩

theorem lawful_plain : LogStyle.plain.Lawful where
  begins moment r := by
    obtain ⟨stamp, is_stamp, shown⟩ := exists_isStamp moment
    rw [shown]
    exact is_stamp.begins _
  ends moment r := by
    obtain ⟨stamp, is_stamp, shown⟩ := exists_isStamp moment
    refine ⟨String.ofList stamp ++ (" " ++ r.text), ?_, fun one_line => ?_⟩
    · simp only [shown, String.append_assoc]
    · simp only [String.toList_append, String.toList_ofList, List.mem_append, not_or]
      exact ⟨is_stamp.no_newline, by decide, newline_notMem_text one_line⟩
  continues moment moment' r := by
    have dated (moment : Nat) : (Text.lines (LogStyle.plain moment r)).tail =
        (Text.lines (" " ++ r.text ++ "\n")).tail := by
      obtain ⟨stamp, is_stamp, shown⟩ := exists_isStamp moment
      rw [shown]
      apply Text.tail_lines_append
      rw [String.toList_ofList]
      exact is_stamp.no_newline
    rw [dated, dated]
  agrees {moment moment' r r'} same := by
    obtain ⟨stamp, is_stamp, shown⟩ := exists_isStamp moment
    obtain ⟨stamp', is_stamp', shown'⟩ := exists_isStamp moment'
    obtain ⟨rest, text⟩ := exists_text_eq_tag_append r
    obtain ⟨rest', text'⟩ := exists_text_eq_tag_append r'
    have chars : stamp ++ ' ' :: (r.severity.tag ++ (rest ++ ['\n'])) =
        stamp' ++ ' ' :: (r'.severity.tag ++ (rest' ++ ['\n'])) := by
      have texts := congrArg String.toList same
      simpa [shown, shown', text, text'] using texts
    have behind := congrArg (List.dropWhile (· ≠ ' ')) chars
    rw [dropWhile_isStamp is_stamp, dropWhile_isStamp is_stamp'] at behind
    have lengths := (length_tag r.severity).trans (length_tag r'.severity).symm
    exact tag_injective (List.append_inj_left (List.cons.inj behind).2 lengths)

end ArithExpr
