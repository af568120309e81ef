import ArithExpr.Event
import ArithExpr.Text.Lines

/-! Log records, and what holds of the text in which a log shows them. The style of a log is free,
but a record is a line of text that begins with a time and shows how grave the record is
(`LogStyle.Lawful`). -/

namespace ArithExpr

/-- What a log is told. -/
structure Record where
  severity : Severity
  message : String
  /-- Named values, as text. -/
  fields : List (String × String)
deriving DecidableEq

/-- No text of the record has a newline. -/
def Record.IsOneLine (r : Record) : Prop :=
  '\n' ∉ r.message.toList ∧ ∀ field ∈ r.fields, '\n' ∉ field.1.toList ∧ '\n' ∉ field.2.toList

def Event.record (e : Event) : Record := ⟨e.severity, e.message, e.fields⟩

/-- The text of a record that is shown at a moment, which is counted in microseconds. -/
abbrev LogStyle := Nat → Record → String

/-- A line that begins as a time does: with a digit, with the sign of a year of five digits, or with
the escape character if the time is coloured. -/
def beginsWithTime (line : String) : Bool :=
  line.toList.head?.any fun c => c.isDigit || c = '+' || c = '\x1b'

namespace LogStyle

/-- Texts that are the same, one in either style, show records that are equally grave. -/
def Agree (style style' : LogStyle) : Prop :=
  ∀ ⦃moment moment' : Nat⦄ ⦃r r' : Record⦄, style moment r = style' moment' r' →
    r.severity = r'.severity

/-- What can be relied on in the text of a log. -/
structure Lawful (style : LogStyle) : Prop where
  begins (moment : Nat) (r : Record) : beginsWithTime (style moment r)
  /-- The text ends its line, and has no other newline unless the record has one. -/
  ends (moment : Nat) (r : Record) :
    ∃ line, style moment r = line ++ "
" ∧ (r.IsOneLine → '
' ∉ line.toList)
  /-- The time is shown in the first line only. -/
  continues (moment moment' : Nat) (r : Record) :
    (Text.lines (style moment r)).tail = (Text.lines (style moment' r)).tail
  agrees : Agree style style

theorem Agree.symm {style style' : LogStyle} (agree : Agree style style') : Agree style' style :=
  fun _ _ _ _ same => (agree same.symm).symm

end LogStyle

end ArithExpr
