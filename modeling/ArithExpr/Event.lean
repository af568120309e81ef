import ArithExpr.Diagnostic

/-! The log of a reading: one event when it starts, one for each diagnostic, one when it ends. -/

namespace ArithExpr

inductive Severity where
  | warn
  | info
  | debug
  | trace
deriving DecidableEq

namespace Severity

def name : Severity → String
  | warn => "WARN"
  | info => "INFO"
  | debug => "DEBUG"
  | trace => "TRACE"

/-- The graver, the less. -/
def rank : Severity → Nat
  | warn => 2
  | info => 3
  | debug => 4
  | trace => 5

end Severity

inductive Event where
  /-- The reading of a text of this many characters begins. -/
  | started (length : Nat)
  | recorded (diagnostic : Diagnostic)
  /-- The reading is over, with this many diagnostics in all. -/
  | finished (consumed diagnostics : Nat) (hasRoot : Bool)
deriving DecidableEq

namespace Event

def severity : Event → Severity
  | started _ | finished .. => .debug
  | recorded _ => .trace

def message : Event → String
  | started _ => "parsing expression"
  | recorded _ => "diagnostic recorded"
  | finished .. => "parse finished"

/-- The named values that an event carries, as text. -/
def fields : Event → List (String × String)
  | started length => [("length", toString length)]
  | recorded d => [("position", toString d.position), ("diagnostic", d.message)]
  | finished consumed diagnostics hasRoot =>
    [("consumed", toString consumed), ("diagnostics", toString diagnostics),
      ("has_root", toString hasRoot)]

end Event

end ArithExpr
