import ArithExpr.Command.Notice
import ArithExpr.Expr.Outline
import ArithExpr.Expr.Text
import ArithExpr.Reader.Session
import ArithExpr.Text.Blank
import ArithExpr.Text.TokenFile

/-! What the command answers. The log and the diagnostics go to the error stream; the tree goes to
the output, unless a strict run refuses it. -/

namespace ArithExpr

/-- The line that shows a diagnostic. -/
def Diagnostic.errorLine (d : Diagnostic) : String := "error: " ++ d.message

/-- The line that ends a run that failed. -/
def Failure.errorLine (f : Failure) : String := "Error: " ++ f.message

namespace Command

structure Response where
  exit : UInt8
  stdout : String
  stderr : String
deriving DecidableEq

def versionLine : String := "rdparse 0.1.0\n"

def description : String := "Recursive-descent parser for integer arithmetic expressions"

def longDescription : String := "\n".intercalate
  ["Recursive-descent parser for integer arithmetic expressions.",
    "Reads single-character tokens (one per line, first character kept)",
    "and prints the abstract syntax tree.",
    "",
    "Example usage:",
    "rdparse                          # Parse lex_output.txt",
    "rdparse tokens.txt               # Parse another token file",
    "rdparse -e '(2+3)*4'             # Parse an inline expression",
    "rdparse -e '1+' --strict         # Fail on any diagnostic",
    "rdparse -e '8-3-2' --unparse     # Print the expression back out"]

def header : String := "Abstract Syntax Tree (AST):"

/-- The end of a run: its exit, what it prints, and what it says last. -/
structure Ending where
  exit : UInt8
  stdout : String
  notices : List Notice

def Ending.fail (stdout : String) (f : Failure) : Ending := ⟨1, stdout, [.said f.errorLine]⟩

/-- A diagnostic is logged, and then shown. -/
def findings (diagnostics : List Diagnostic) : List Notice :=
  diagnostics.flatMap fun d => [.logged (.found d), .said d.errorLine]

namespace Options

def limit (o : Options) : Nat := o.maxDepth?.getD Reader.defaultLimit

/-- The least grave records that are shown. -/
def level (o : Options) : Severity := if o.verbose then .debug else .warn

/-- The file to be read, unless the expression is given. -/
def file? (o : Options) : Option String :=
  if o.expr?.isSome then none else some (o.path?.getD TokenFile.defaultPath)

/-- The text to be parsed, where `contents` says what the files hold. -/
def input (o : Options) (contents : String → Except ReadFault String) : Except Failure String :=
  match o.expr? with
  | some expr => .ok (Text.withoutBlanks expr)
  | none =>
    let path := o.path?.getD TokenFile.defaultPath
    match contents path with
    | .ok text => .ok (TokenFile.assemble text)
    | .error fault => .error (.unreadable path fault)

/-- The output for a tree. -/
def report (o : Options) (e : Expr) : String :=
  header ++ "\n" ++ e.outline 0 ++ if o.unparse then "Expression: " ++ toString e ++ "\n" else ""

/-- Prints a tree. The run breaks off behind the header if the outline has a line that cannot be
indented as far as it should be. -/
def print (o : Options) (crash : String) (e : Expr) : Ending :=
  if e.IsPrintable then ⟨0, o.report e, []⟩
  else ⟨101, header ++ "\n", (Text.lines crash).map .said⟩

/-- The end of a run whose text could be read. -/
def ending (o : Options) (crash : String) (outcome : Outcome) : Ending :=
  if o.strict then
    match outcome.strict with
    | .ok e => o.print crash e
    | .error f => .fail "" f
  else
    match outcome.root with
    | some e => o.print crash e
    | none => .fail (header ++ "\n") .emptyTree

/-- What is logged before the text is there. -/
def opening (o : Options) : List Record := o.file?.toList.map .opening

/-- What is logged while the text is read, before anything is said of the outcome. -/
def progress (o : Options) (elapsed text : String) : List Record :=
  let (root, t) := (Reader.ofChars text.toList o.limit).readAll
  .assembled text.length :: t.log.map Event.record ++ [.completed elapsed root]

/-- What is said of the outcome. -/
def closing (o : Options) (crash : String) (outcome : Outcome) : List Notice :=
  findings outcome.diagnostics ++ (o.ending crash outcome).notices

def respond (o : Options) (s : Surroundings) : Response :=
  match o.input s.contents with
  | .ok text =>
    let outcome := parse text o.limit
    let ending := o.ending s.crash outcome
    let records := o.opening ++ o.progress s.elapsed text
    ⟨ending.exit, ending.stdout,
      s.write o.level (records.map .logged ++ o.closing s.crash outcome)⟩
  | .error f => ⟨1, "", s.write o.level (o.opening.map .logged ++ [.said f.errorLine])⟩

end Options

/-- What the command tells of itself. -/
def Surroundings.tell (s : Surroundings) : Inquiry → String
  | .version => versionLine
  | .summary => s.help description
  | .manual => s.help longDescription

/-- The answer to a command line. -/
def respond (s : Surroundings) (arguments : List String) : Response :=
  match Request.ofArguments arguments with
  | .run o => o.respond s
  | .inquire i => ⟨0, s.tell i, ""⟩
  | .misuse => ⟨2, "", s.misuse arguments⟩

/-- The same surroundings, one notice later. -/
def Surroundings.later (s : Surroundings) : Surroundings :=
  { s with clock := fun n => s.clock (n + 1) }

/-- The path that the log shows. -/
def Options.loggedPath? (o : Options) : Option String := if o.verbose then o.file? else none

section

variable {s : Surroundings} {o : Options} {arguments : List String} {path text : String}
  {f : Failure} {notices : List Notice}

theorem respond_of_run (run : Request.ofArguments arguments = .run o) :
    respond s arguments = o.respond s := by
  rw [respond, run]

namespace Options

/-- What is said of a crash shows on the error stream only. -/
theorem ending_crash (o : Options) (crash crash' : String) (outcome : Outcome) :
    (o.ending crash outcome).exit = (o.ending crash' outcome).exit ∧
      (o.ending crash outcome).stdout = (o.ending crash' outcome).stdout := by
  have printed (e : Expr) : (o.print crash e).exit = (o.print crash' e).exit ∧
      (o.print crash e).stdout = (o.print crash' e).stdout := by
    unfold print
    split <;> exact ⟨rfl, rfl⟩
  unfold ending
  split
  · cases outcome.strict with
    | ok e => exact printed e
    | error f => exact ⟨rfl, rfl⟩
  · cases outcome.root with
    | some e => exact printed e
    | none => exact ⟨rfl, rfl⟩

theorem exit_respond (readable : o.input s.contents = .ok text) :
    (o.respond s).exit = (o.ending s.crash (parse text o.limit)).exit := by
  rw [respond, readable]

theorem stdout_respond (readable : o.input s.contents = .ok text) :
    (o.respond s).stdout = (o.ending s.crash (parse text o.limit)).stdout := by
  rw [respond, readable]

theorem stderr_respond (readable : o.input s.contents = .ok text) :
    (o.respond s).stderr = s.write o.level (o.opening.map .logged ++
      ((o.progress s.elapsed text).map .logged ++ o.closing s.crash (parse text o.limit))) := by
  rw [respond, readable, ← List.append_assoc, ← List.map_append]

theorem respond_of_unreadable (unreadable : o.input s.contents = .error f) :
    o.respond s =
      ⟨1, "", s.write o.level (o.opening.map .logged ++ [.said f.errorLine])⟩ := by
  rw [respond, unreadable]

theorem exists_fault_of_input (unreadable : o.input s.contents = .error f) :
    ∃ path fault, o.file? = some path ∧ f = .unreadable path fault := by
  unfold input at unreadable
  split at unreadable
  · cases unreadable
  · rename_i no_expr
    dsimp only at unreadable
    split at unreadable
    · cases unreadable
    · cases unreadable
      exact ⟨_, _, by simp [file?, no_expr], rfl⟩

theorem filter_opening (o : Options) :
    (o.opening.map .logged).filter (Notice.isShown o.level) =
      o.loggedPath?.toList.map fun path => .logged (.opening path) := by
  unfold opening loggedPath? level
  cases o.verbose <;> cases o.file? <;> rfl

theorem write_opening_of_none (unlogged : o.loggedPath? = none) :
    s.write o.level (o.opening.map .logged ++ notices) = s.write o.level notices := by
  rw [Surroundings.write, List.filter_append, filter_opening, unlogged]
  rfl

theorem write_opening_of_some (logged : o.loggedPath? = some path) :
    s.write o.level (o.opening.map .logged ++ notices) =
      s.style (s.clock 0) (.opening path) ++ s.later.write o.level notices := by
  rw [Surroundings.write, List.filter_append, filter_opening, logged]
  exact (congrArg String.join Notice.texts_cons).trans String.join_cons

end Options

end

end Command

end ArithExpr
