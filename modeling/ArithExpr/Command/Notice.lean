import ArithExpr.Command.Options
import ArithExpr.Diagnostic
import ArithExpr.Expr.Basic
import ArithExpr.Files.ReadFault
import ArithExpr.Log.Line

/-! Notices: what a run writes to the error stream. Some are its own lines, and some are log
records, which are shown if they are grave enough. What else a run depends on is its
surroundings. -/

namespace ArithExpr

namespace Record

/-! The records of a run. -/

def opening (path : String) : Record := ⟨.debug, "reading token file", [("path", path)]⟩

def assembled (tokens : Nat) : Record := ⟨.info, "input assembled", [("tokens", toString tokens)]⟩

def completed (elapsed : String) (root : Option Expr) : Record :=
  ⟨.debug, "parsing completed", [("elapsed", elapsed),
    ("nodes", toString (root.elim 0 Expr.size)), ("depth", toString (root.elim 0 Expr.height))]⟩

def found (d : Diagnostic) : Record := ⟨.warn, d.message, [("position", toString d.position)]⟩

end Record

namespace Command

inductive Notice where
  | logged (r : Record)
  | said (text : String)
deriving DecidableEq

namespace Notice

def isShown (level : Severity) : Notice → Bool
  | logged r => r.severity.rank ≤ level.rank
  | said _ => true

def text (style : LogStyle) (moment : Nat) : Notice → String
  | logged r => style moment r
  | said text => text ++ "\n"

/-- The texts of notices that are shown one after the other. -/
def texts (style : LogStyle) (clock : Nat → Nat) (notices : List Notice) : List String :=
  notices.mapIdx fun n notice => notice.text style (clock n)

variable {style : LogStyle} {clock : Nat → Nat} {notice : Notice} {notices : List Notice}

theorem texts_cons : texts style clock (notice :: notices) =
    notice.text style (clock 0) :: texts style (fun n => clock (n + 1)) notices := by
  rw [texts, List.mapIdx_cons, texts]

end Notice

/-- What a run depends on besides its arguments. -/
structure Surroundings where
  /-- What the file at a path holds. -/
  contents : String → Except ReadFault String
  style : LogStyle
  /-- The moments at which notices are shown, from the first one on. -/
  clock : Nat → Nat
  /-- The seconds that the reading of the text takes, as they are written. -/
  elapsed : String
  /-- The page of help around a description of the command. -/
  help : String → String
  /-- What is said of arguments that are misuse. -/
  misuse : List String → String
  /-- What is said when a line of an outline cannot be indented as far as it should be. -/
  crash : String

/-- Surroundings with a plain log, and with words of their own for help, misuse and a crash. -/
def Surroundings.plain (contents : String → Except ReadFault String) (clock : Nat → Nat)
    (elapsed : String) : Surroundings where
  contents
  style := .plain
  clock
  elapsed
  help := (· ++ "\n")
  misuse _ := "The arguments do not fit. See --help.\n"
  crash := "The tree is too high for an outline."

/-- The text of the notices that are shown at a level. -/
def Surroundings.write (s : Surroundings) (level : Severity) (notices : List Notice) : String :=
  String.join (Notice.texts s.style s.clock (notices.filter (Notice.isShown level)))

end Command

end ArithExpr
