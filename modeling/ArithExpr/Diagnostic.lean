/-! What can be wrong with a text, and the sentence that says so. Positions count characters from
the start of the text. -/

namespace ArithExpr

/-- Why the characters at a place are not an integer literal. -/
inductive IntegerFault where
  | noLeadingDigit
  | overflow
deriving DecidableEq

def IntegerFault.message : IntegerFault → String
  | .noLeadingDigit => "no leading digit"
  | .overflow => "value does not fit a 64-bit integer"

inductive Diagnostic where
  /-- An operand was expected; `none` stands for the end of the text. -/
  | unexpectedCharacter (found : Option Char) (position : Nat)
  /-- A group ends here without its closing parenthesis. -/
  | unclosedGroup (position : Nat)
  | invalidInteger (fault : IntegerFault) (position : Nat)
  /-- The expression is over, but the text is not. -/
  | trailingText (remaining : String) (position : Nat)
  /-- This opening parenthesis would make more than `limit` groups open. -/
  | tooDeep (limit position : Nat)
deriving DecidableEq

namespace Diagnostic

def position : Diagnostic → Nat
  | unexpectedCharacter _ p => p
  | unclosedGroup p => p
  | invalidInteger _ p => p
  | trailingText _ p => p
  | tooDeep _ p => p

def describe : Option Char → String
  | some c => "'" ++ c.toString ++ "'"
  | none => "end of input"

def message : Diagnostic → String
  | unexpectedCharacter found p =>
    "Invalid character " ++ describe found ++ " found at position " ++ toString p
  | unclosedGroup p => "Expected closing parenthesis ')' at position " ++ toString p
  | invalidInteger fault p => "Invalid integer at position " ++ toString p ++ ": " ++ fault.message
  | trailingText remaining p =>
    "Unexpected characters '" ++ remaining ++ "' after the expression at position " ++ toString p
  | tooDeep limit p =>
    "Parentheses nested deeper than " ++ toString limit ++ " at position " ++ toString p

instance : ToString Diagnostic := ⟨message⟩

end Diagnostic

end ArithExpr
