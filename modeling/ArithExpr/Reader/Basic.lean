import ArithExpr.Decimal
import ArithExpr.Event
import ArithExpr.Expr.Basic

/-! A reader walks a text from left to right. It holds what is left of the text, how many groups
are open, and what it has found wrong so far; this file has its small steps, each of which takes
something off the front of the text or writes something down. -/

namespace ArithExpr

structure Reader where
  /-- The text not yet read. -/
  rest : List Char
  /-- The number of characters read. -/
  position : Nat := 0
  /-- The number of groups open. -/
  depth : Nat := 0
  /-- The number of groups that may be open at one time. -/
  limit : Nat
  /-- The diagnostics, the latest first. -/
  found : List Diagnostic := []
  /-- The events, the latest first. -/
  events : List Event := []
deriving DecidableEq

namespace Reader

def defaultLimit : Nat := 256

def ofChars (text : List Char) (limit : Nat) : Reader where
  rest := text
  limit := limit

/-- The diagnostics in the order they were found. -/
def diagnostics (s : Reader) : List Diagnostic := s.found.reverse

/-- The events in the order they happened. -/
def log (s : Reader) : List Event := s.events.reverse

def next? (s : Reader) : Option Char := s.rest.head?

/-- Leaves the next character behind. -/
def advance (s : Reader) : Reader :=
  match s.rest with
  | [] => s
  | _ :: rest => { s with rest := rest, position := s.position + 1 }

/-- The reader after `c`, if `c` comes next. -/
def accept? (s : Reader) (c : Char) : Option Reader :=
  if s.next? = some c then some s.advance else none

/-- The next operator and the reader after it, if an operator of this level comes next. -/
def operator? (s : Reader) (level : Level) : Option (Operator × Reader) :=
  match s.next?.bind Operator.ofSymbol? with
  | some op => if op.level = level then some (op, s.advance) else none
  | none => none

def note (s : Reader) (e : Event) : Reader := { s with events := e :: s.events }

/-- Writes a diagnostic down and notes it in the log. -/
def report (s : Reader) (d : Diagnostic) : Reader :=
  { s.note (.recorded d) with found := d :: s.found }

def openGroup (s : Reader) : Reader := { s with depth := s.depth + 1 }

def closeGroup (s : Reader) : Reader := { s with depth := s.depth - 1 }

/-- The digits at the front of the text. -/
def digits (s : Reader) : List Char := s.rest.takeWhile Char.isDigit

def skipDigits (s : Reader) : Reader :=
  { s with
    rest := s.rest.dropWhile Char.isDigit
    position := s.position + s.digits.length }

/-- The value of the digits at the front, and the reader after them. A missing or too large
integer is returned as a diagnostic and not written down. -/
def integer (s : Reader) : Except Diagnostic Int64 × Reader :=
  let value :=
    if s.digits = [] then .error (.invalidInteger .noLeadingDigit s.position)
    else
      match Decimal.toInt64? s.digits with
      | some v => .ok v
      | none => .error (.invalidInteger .overflow s.position)
  (value, s.skipDigits)

/-! How much text each step leaves. -/

theorem length_advance_of_next? {s : Reader} {c : Char} (h : s.next? = some c) :
    s.advance.rest.length + 1 = s.rest.length := by
  unfold advance
  split <;> simp_all [next?]

theorem length_accept? {s t : Reader} {c : Char} (h : s.accept? c = some t) :
    t.rest.length + 1 = s.rest.length := by
  unfold accept? at h
  split at h
  · cases h
    exact length_advance_of_next? ‹_›
  · cases h

theorem length_operator? {s t : Reader} {level : Level} {op : Operator}
    (h : s.operator? level = some (op, t)) : t.rest.length + 1 = s.rest.length := by
  unfold operator? at h
  split at h
  · rename_i found
    obtain ⟨c, hc, -⟩ := Option.bind_eq_some_iff.1 found
    split at h
    · cases h
      exact length_advance_of_next? hc
    · cases h
  · cases h

theorem length_skipDigits_le (s : Reader) : s.skipDigits.rest.length ≤ s.rest.length :=
  (List.dropWhile_suffix _).length_le

/-! What is written down, and what is left alone. -/

@[simp] theorem diagnostics_note (s : Reader) (e : Event) :
    (s.note e).diagnostics = s.diagnostics := rfl

@[simp] theorem diagnostics_report (s : Reader) (d : Diagnostic) :
    (s.report d).diagnostics = s.diagnostics ++ [d] := List.reverse_cons

@[simp] theorem log_note (s : Reader) (e : Event) : (s.note e).log = s.log ++ [e] :=
  List.reverse_cons

@[simp] theorem log_report (s : Reader) (d : Diagnostic) :
    (s.report d).log = s.log ++ [.recorded d] := List.reverse_cons

@[simp] theorem rest_note (s : Reader) (e : Event) : (s.note e).rest = s.rest := rfl

@[simp] theorem rest_report (s : Reader) (d : Diagnostic) : (s.report d).rest = s.rest := rfl

@[simp] theorem rest_openGroup (s : Reader) : s.openGroup.rest = s.rest := rfl

@[simp] theorem rest_closeGroup (s : Reader) : s.closeGroup.rest = s.rest := rfl

end Reader

end ArithExpr
