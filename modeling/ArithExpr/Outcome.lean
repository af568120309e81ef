import ArithExpr.Diagnostic
import ArithExpr.Expr.Basic
import ArithExpr.Files.ReadFault

/-! What a reading comes to. A faulty text still has an outcome, and often a tree; a caller who
wants nothing but faultless trees takes the outcome strictly. -/

namespace ArithExpr

structure Outcome where
  root : Option Expr
  /-- The diagnostics in the order they were found. -/
  diagnostics : List Diagnostic
  /-- The number of characters read. -/
  consumed : Nat
deriving DecidableEq

/-- Why no tree is handed out. -/
inductive Failure where
  | unreadable (path : String) (fault : ReadFault)
  | rejected (diagnostic : Diagnostic)
  | emptyTree
deriving DecidableEq

def Failure.message : Failure → String
  | .unreadable path fault => "File read error: " ++ path ++ ": " ++ fault.message
  | .rejected d => "Parse error: " ++ d.message
  | .emptyTree => "Parse produced no tree"

namespace Outcome

/-- A tree was read and nothing was found wrong. -/
def IsClean (o : Outcome) : Prop := o.root.isSome ∧ o.diagnostics = []

instance (o : Outcome) : Decidable o.IsClean :=
  inferInstanceAs (Decidable (_ ∧ _))

/-- The tree of an outcome without diagnostics; otherwise the first diagnostic is the failure. -/
def strict (o : Outcome) : Except Failure Expr :=
  match o.diagnostics with
  | d :: _ => .error (.rejected d)
  | [] =>
    match o.root with
    | some e => .ok e
    | none => .error .emptyTree

end Outcome

end ArithExpr
