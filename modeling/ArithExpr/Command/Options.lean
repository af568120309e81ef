import ArithExpr.Decimal

/-! The arguments of the command. They are read from left to right, and the first one that does
not fit decides: it is misuse, whatever follows. A question about the command itself decides just as
well. -/

namespace ArithExpr.Command

structure Options where
  path? : Option String := none
  /-- An expression given in place of a file. -/
  expr? : Option String := none
  maxDepth? : Option Nat := none
  strict : Bool := false
  unparse : Bool := false
  /-- Whether the log also shows what is no warning. -/
  verbose : Bool := false
deriving DecidableEq

/-- What the command can tell of itself. -/
inductive Inquiry where
  | version
  | summary
  | manual
deriving DecidableEq

/-- What the arguments ask for. -/
inductive Request where
  | run (options : Options)
  | inquire (inquiry : Inquiry)
  | misuse
deriving DecidableEq

inductive Switch where
  | strict
  | unparse
  | verbose
deriving DecidableEq

/-- The options that take a value. -/
inductive Parameter where
  | expr
  | maxDepth
deriving DecidableEq

inductive Setting where
  | switch (s : Switch)
  | parameter (p : Parameter)
  | inquiry (i : Inquiry)
deriving DecidableEq

def Setting.ofName? : String → Option Setting
  | "strict" => some (.switch .strict)
  | "unparse" => some (.switch .unparse)
  | "verbose" => some (.switch .verbose)
  | "expr" => some (.parameter .expr)
  | "max-depth" => some (.parameter .maxDepth)
  | "version" => some (.inquiry .version)
  | "help" => some (.inquiry .manual)
  | _ => none

def Setting.ofLetter? : Char → Option Setting
  | 's' => some (.switch .strict)
  | 'v' => some (.switch .verbose)
  | 'e' => some (.parameter .expr)
  | 'V' => some (.inquiry .version)
  | 'h' => some (.inquiry .summary)
  | _ => none

/-- A depth is a decimal below `2 ^ 64`, which may have a plus sign. -/
def depthOfText? (text : String) : Option Nat :=
  let digits :=
    match text.toList with
    | '+' :: rest => rest
    | all => all
  if digits ≠ [] ∧ digits.all Char.isDigit ∧ Decimal.value digits < Nat.pow 2 64 then
    some (Decimal.value digits)
  else
    none

namespace Options

/-! Each option can be given once. -/

def turnOn? (o : Options) : Switch → Option Options
  | .strict => if o.strict then none else some { o with strict := true }
  | .unparse => if o.unparse then none else some { o with unparse := true }
  | .verbose => if o.verbose then none else some { o with verbose := true }

def assign? (o : Options) (p : Parameter) (value : String) : Option Options :=
  match p with
  | .expr => if o.expr?.isSome then none else some { o with expr? := some value }
  | .maxDepth =>
    if o.maxDepth?.isSome then none
    else (depthOfText? value).map fun depth => { o with maxDepth? := some depth }

def setPath? (o : Options) (path : String) : Option Options :=
  if o.path?.isSome ∨ path = "" then none else some { o with path? := some path }

/-- What complete options ask for: an expression leaves no room for a path. -/
def request (o : Options) : Request :=
  if o.expr?.isSome ∧ o.path?.isSome then .misuse else .run o

end Options

/-- How the reading of arguments goes on after one of them. -/
inductive Step where
  | next (options : Options)
  /-- The value of the parameter is the next argument. -/
  | await (p : Parameter) (options : Options)
  | stop (request : Request)

def Step.ofOption : Option Options → Step
  | some o => .next o
  | none => .stop .misuse

/-- A group of letters after one hyphen. A letter that takes a value takes all that follows it,
less one equals sign. -/
def readLetters (o : Options) : List Char → Step
  | [] => .next o
  | c :: rest =>
    match Setting.ofLetter? c with
    | none => .stop .misuse
    | some (.inquiry i) => .stop (.inquire i)
    | some (.switch s) =>
      match o.turnOn? s with
      | some o => readLetters o rest
      | none => .stop .misuse
    | some (.parameter p) =>
      match rest with
      | [] => .await p o
      | '=' :: value => .ofOption (o.assign? p (String.ofList value))
      | value => .ofOption (o.assign? p (String.ofList value))

/-- A name after two hyphens, perhaps with an equals sign and a value. -/
def readName (o : Options) (text : List Char) : Step :=
  let name := text.takeWhile (· ≠ '=')
  let value? := (text.dropWhile (· ≠ '=')).tail?.map String.ofList
  match Setting.ofName? (String.ofList name), value? with
  | some (.switch s), none => .ofOption (o.turnOn? s)
  | some (.parameter p), none => .await p o
  | some (.parameter p), some value => .ofOption (o.assign? p value)
  | some (.inquiry i), none => .stop (.inquire i)
  | _, _ => .stop .misuse

/-- A single hyphen is a path like any other. -/
def readArgument (o : Options) (argument : String) : Step :=
  match argument.toList with
  | '-' :: '-' :: name => readName o name
  | '-' :: c :: letters => readLetters o (c :: letters)
  | _ => .ofOption (o.setPath? argument)

def looksLikeOption (argument : String) : Bool :=
  argument.toList.head? = some '-' && argument ≠ "-"

/-- Arguments after a bare pair of hyphens are paths. -/
def readPaths (o : Options) : List String → Request
  | [] => o.request
  | path :: rest =>
    match o.setPath? path with
    | some o => readPaths o rest
    | none => .misuse

def readArguments (o : Options) : List String → Request
  | [] => o.request
  | "--" :: rest => readPaths o rest
  | argument :: rest =>
    match readArgument o argument with
    | .stop request => request
    | .next o => readArguments o rest
    | .await p o =>
      match rest with
      | [] => .misuse
      | value :: rest =>
        if looksLikeOption value then .misuse
        else
          match o.assign? p value with
          | some o => readArguments o rest
          | none => .misuse

def Request.ofArguments (arguments : List String) : Request := readArguments {} arguments

end ArithExpr.Command
