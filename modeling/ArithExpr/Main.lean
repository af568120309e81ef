import ArithExpr.Command.Response

/-! The command itself: it reads the file that is asked for, and prints the response. -/

namespace ArithExpr

/-- The fault that a failed attempt to read a file shows. -/
def ReadFault.ofError : IO.Error → ReadFault
  | .noFileOrDirectory .. | .noSuchThing .. => .missing
  | .inappropriateType _ 21 _ => .isDirectory
  | .inappropriateType _ 20 _ => .notDirectory
  | .invalidArgument _ 36 _ => .nameTooLong
  | .permissionDenied _ code reason => .refused reason code.toNat
  | .otherError code reason => .refused reason code.toNat
  | e => .refused (toString e) 0

def readText (path : String) : IO (Except ReadFault String) := do
  try
    let content ← (← IO.FS.Handle.mk path .read).readBinToEnd
    match String.fromUTF8? content with
    | some text => return .ok text
    | none => return .error .notUtf8
  catch e =>
    return .error (.ofError e)

/-- The seconds that the reading of a text takes. -/
def timed (text : String) (limit : Nat) : IO Float := do
  let start ← IO.monoNanosNow
  let _ ← IO.lazyPure fun _ => parse text limit
  let stop ← IO.monoNanosNow
  return (stop - start).toFloat / 1.0e9

/-- What is around a run with these options. The log counts time from the start of the machine. -/
def surroundings (o : Command.Options) : IO Command.Surroundings := do
  let content ←
    match o.file? with
    | some path => readText path
    | none => pure (.error .missing)
  let elapsed ←
    match o.input fun _ => content with
    | .ok text => timed text o.limit
    | .error _ => pure 0
  let start ← IO.monoNanosNow
  return .plain (fun _ => content) (fun n => start / 1000 + n) (toString elapsed)

end ArithExpr

open ArithExpr in
def main (arguments : List String) : IO UInt32 := do
  let options :=
    match Command.Request.ofArguments arguments with
    | .run o => o
    -- no file is read if nothing is to be run
    | _ => { expr? := some "" }
  let response := Command.respond (← surroundings options) arguments
  IO.print response.stdout
  IO.eprint response.stderr
  return response.exit.toUInt32
