import ArithExpr.Outcome
import ArithExpr.Reader.Reading

/-! What a caller can ask of a reader. Single calls read a part of an expression, an integer or a
character where the reader stands, in any order; reading the whole text ends the session with an
outcome. -/

namespace ArithExpr

namespace Reader

/-- A request that a caller can make at any time. -/
inductive Call where
  | read (part : Part)
  | integer
  /-- Take this character if it comes next. -/
  | accept (c : Char)
deriving DecidableEq

/-- The answer to a call. -/
inductive Reply where
  | tree (root : Option Expr)
  | integer (result : Except Diagnostic Int64)
  | accepted (taken : Bool)

def perform (s : Reader) : Call → Reply × Reader
  | .read part =>
    let r := s.read part
    (.tree r.tree, r.after)
  | .integer =>
    let (result, t) := s.integer
    (.integer result, t)
  | .accept c =>
    match s.accept? c with
    | some t => (.accepted true, t)
    | none => (.accepted false, s)

/-- The reader after a series of calls. -/
def performAll (s : Reader) (calls : List Call) : Reader :=
  calls.foldl (fun t call => (t.perform call).2) s

/-- Reports the text that is left, if any is. -/
def reportRest (s : Reader) : Reader :=
  if s.rest = [] then s else s.report (.trailingText (String.ofList s.rest) s.position)

/-- Reads one expression and reports the text after it. The log says when this starts and ends;
the length that it gives is that of the whole text, also if some of it was read before. -/
def readAll (s : Reader) : Option Expr × Reader :=
  let r := (s.note (.started (s.position + s.rest.length))).read .expression
  let t := r.after.reportRest
  (r.tree, t.note (.finished t.position t.diagnostics.length r.tree.isSome))

def outcome (s : Reader) : Outcome :=
  let (root, t) := s.readAll
  ⟨root, t.diagnostics, t.position⟩

end Reader

/-- Reads a whole text in which at most `limit` groups may be open at one time. -/
def parse (text : String) (limit : Nat) : Outcome := (Reader.ofChars text.toList limit).outcome

end ArithExpr
