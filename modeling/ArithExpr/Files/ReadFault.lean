/-! Why a file could not be read as text. -/

namespace ArithExpr

inductive ReadFault where
  | missing
  | notDirectory
  | isDirectory
  | nameTooLong
  /-- Another refusal of the operating system, in its words and with its number. -/
  | refused (reason : String) (code : Nat)
  | notUtf8
  | nulInPath
deriving DecidableEq

/-- A refusal of the operating system ends with its error number. -/
def ReadFault.message : ReadFault → String
  | .missing => "No such file or directory (os error 2)"
  | .notDirectory => "Not a directory (os error 20)"
  | .isDirectory => "Is a directory (os error 21)"
  | .nameTooLong => "File name too long (os error 36)"
  | .refused reason code => reason ++ " (os error " ++ toString code ++ ")"
  | .notUtf8 => "stream did not contain valid UTF-8"
  | .nulInPath => "file name contained an unexpected NUL byte"

end ArithExpr
