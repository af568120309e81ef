import ArithExpr.Decimal

/-! The lexemes of a text. A run of digits is one number, however many zeros it begins with, and any
other character is a mark of its own. -/

namespace ArithExpr

inductive Lexeme where
  | number (value : Nat)
  | mark (c : Char)
deriving DecidableEq

namespace Lexeme

def isParenthesis : Lexeme → Bool
  | number _ => false
  | mark c => c = '(' || c = ')'

/-- The number that a run of digits denotes, if there are any. -/
def ofRun (run : List Char) : List Lexeme :=
  if run = [] then [] else [.number (Decimal.value run)]

/-- The lexemes of a run of digits and the text behind it. -/
def ofRest (run : List Char) : List Char → List Lexeme
  | [] => ofRun run
  | c :: rest =>
    if c.isDigit then ofRest (run ++ [c]) rest else ofRun run ++ .mark c :: ofRest [] rest

def ofText (text : List Char) : List Lexeme := ofRest [] text

/-- The numbers and operators of a text, and whatever else is no parenthesis. -/
def ungrouped (text : List Char) : List Lexeme := (ofText text).filter (!·.isParenthesis)

theorem ofRest_digits {digits : List Char} (digit : ∀ c ∈ digits, c.isDigit) (run : List Char) :
    ofRest run digits = ofRun (run ++ digits) := by
  induction digits generalizing run with
  | nil => rw [ofRest, List.append_nil]
  | cons c rest ih =>
    rw [ofRest, if_pos (digit c (by simp)), ih fun d hd => digit d (by simp [hd])]
    simp

theorem ofText_digits {digits : List Char} (nonempty : digits ≠ [])
    (digit : ∀ c ∈ digits, c.isDigit) : ofText digits = [.number (Decimal.value digits)] := by
  rw [ofText, ofRest_digits digit, List.nil_append, ofRun, if_neg nonempty]

theorem ofRest_mark {c : Char} (no_digit : ¬ c.isDigit) (run left right : List Char) :
    ofRest run (left ++ c :: right) = ofRest run left ++ .mark c :: ofText right := by
  induction left generalizing run with
  | nil =>
    rw [List.nil_append, ofRest, ofRest, if_neg no_digit]
    rfl
  | cons d left ih =>
    rw [List.cons_append, ofRest, ofRest]
    split
    · exact ih _
    · rw [ih, List.append_assoc, List.cons_append]

theorem ofText_mark {c : Char} (no_digit : ¬ c.isDigit) (left right : List Char) :
    ofText (left ++ c :: right) = ofText left ++ .mark c :: ofText right :=
  ofRest_mark no_digit [] left right

example : ofText "(007+1)".toList = [.mark '(', .number 7, .mark '+', .number 1, .mark ')'] := by
  decide

end Lexeme

end ArithExpr
