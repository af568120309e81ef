import ArithExpr.Log.Record

/-! The plain style of a log: the time in UTC to the microsecond, how grave the record is, its
message and its values, as in `2024-02-29T12:00:00.000001Z  WARN Invalid character position=2`. -/

namespace ArithExpr

structure Date where
  year : Nat
  month : Nat
  day : Nat
deriving DecidableEq

/-- The date so many days after the first of January 1970. -/
def Date.ofDays (days : Nat) : Date :=
  -- years begin in March here, so that a leap day is the last day of its year
  let sinceYearZero := days + 719468
  let era := sinceYearZero / 146097
  let dayOfEra := sinceYearZero % 146097
  let yearOfEra := (dayOfEra - dayOfEra / 1460 + dayOfEra / 36524 - dayOfEra / 146096) / 365
  let dayOfYear := dayOfEra - (365 * yearOfEra + yearOfEra / 4 - yearOfEra / 100)
  let month := (5 * dayOfYear + 2) / 153
  let day := dayOfYear - (153 * month + 2) / 5 + 1
  if month < 10 then ⟨400 * era + yearOfEra, month + 3, day⟩
  else ⟨400 * era + yearOfEra + 1, month - 9, day⟩

example : Date.ofDays 0 = ⟨1970, 1, 1⟩ ∧ Date.ofDays 19782 = ⟨2024, 2, 29⟩ := by decide

/-- A number in at least so many digits. -/
def padded (width n : Nat) : List Char := (Nat.toDigits 10 n).leftpad width '0'

/-- A year of five digits has a sign. -/
def Date.chars (d : Date) : List Char :=
  (if 9999 < d.year then ['+'] else []) ++
    (padded 4 d.year ++ '-' :: padded 2 d.month ++ '-' :: padded 2 d.day)

/-- The time of day so many microseconds after the beginning of some day. -/
def timeOfDay (moment : Nat) : List Char :=
  let seconds := moment / 1000000
  padded 2 (seconds / 3600 % 24) ++ ':' :: padded 2 (seconds / 60 % 60) ++
    ':' :: padded 2 (seconds % 60) ++ '.' :: padded 6 (moment % 1000000)

/-- The date and the time of a moment, which is counted in microseconds from the beginning of
1970. -/
def timeStamp (moment : Nat) : List Char :=
  (Date.ofDays (moment / 86400000000)).chars ++ 'T' :: timeOfDay moment ++ ['Z']

/-- The name of a severity, in five columns. -/
def Severity.tag (severity : Severity) : List Char := severity.name.toList.leftpad 5 ' '

def fieldText (field : String × String) : String := " " ++ field.1 ++ "=" ++ field.2

/-- What is shown of a record behind the time. -/
def Record.text (r : Record) : String :=
  String.ofList r.severity.tag ++ " " ++ r.message ++ String.join (r.fields.map fieldText)

def LogStyle.plain : LogStyle := fun moment r =>
  String.ofList (timeStamp moment) ++ " " ++ r.text ++ "
"

end ArithExpr
