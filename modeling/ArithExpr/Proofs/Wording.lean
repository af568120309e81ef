import ArithExpr.Decimal
import ArithExpr.Diagnostic

/-! The wording of diagnostics. A message quotes characters of the text as they are, with nothing to
mark them off, and still says all that the diagnostic says: the kind shows in the first words, a
number at the end goes back to the last character that is no digit, and what is quoted stands
between fixed words (`message_injective`). A message has no newline unless it quotes one. -/

namespace ArithExpr

/-! Numbers among words. -/

section

variable {m n : Nat} {a b word : String} {c : Char}

theorem toString_nat_inj (h : toString m = toString n) : m = n := by
  apply Decimal.toDigits_inj
  simpa using congrArg String.toList h

theorem isDigit_of_mem_toString (n : Nat) : ∀ c ∈ (toString n).toList, c.isDigit := by
  intro c hc
  exact Decimal.isDigit_of_mem_toDigits (n := n) (by simpa using hc)

theorem number_append_inj (first : word.toList.head? = some c) (no_digit : ¬ c.isDigit)
    (h : toString m ++ (word ++ a) = toString n ++ (word ++ b)) : m = n ∧ a = b := by
  have ends (x : String) : ∀ d ∈ (word ++ x).toList.head?, ¬ d.isDigit := by
    simp [String.toList_append, List.head?_append, first, no_digit]
  have texts := congrArg String.toList h
  rw [String.toList_append, String.toList_append (s := toString n)] at texts
  obtain ⟨number, rest⟩ := Decimal.digits_append_inj (isDigit_of_mem_toString m)
    (isDigit_of_mem_toString n) (ends a) (ends b) texts
  exact ⟨toString_nat_inj (String.toList_inj.1 number),
    (String.append_right_inj word).1 (String.toList_inj.1 rest)⟩

theorem append_number_inj (last : word.toList.getLast? = some c) (no_digit : ¬ c.isDigit)
    (h : a ++ word ++ toString m = b ++ word ++ toString n) : a = b ∧ m = n := by
  have begins (x : String) : ∀ d ∈ (x ++ word).toList.getLast?, ¬ d.isDigit := by
    simp [String.toList_append, List.getLast?_append, last, no_digit]
  have texts := congrArg String.toList h
  rw [String.toList_append, String.toList_append (t := toString n)] at texts
  obtain ⟨front, number⟩ := Decimal.append_digits_inj (isDigit_of_mem_toString m)
    (isDigit_of_mem_toString n) (begins a) (begins b) texts
  exact ⟨(String.append_left_inj word).1 (String.toList_inj.1 front),
    toString_nat_inj (String.toList_inj.1 number)⟩

end

theorem IntegerFault.message_inj {fault fault' : IntegerFault}
    (h : fault.message = fault'.message) : fault = fault' := by
  have texts := congrArg String.toList h
  cases fault <;> cases fault' <;> simp [message] at texts ⊢

namespace Diagnostic

variable {d d' : Diagnostic}

/-! The sentences, kind by kind. -/

theorem message_unexpectedCharacter (found : Option Char) (p : Nat) :
    message (unexpectedCharacter found p) =
      "Invalid character " ++ describe found ++ " found at position " ++ toString p := rfl

theorem message_unclosedGroup (p : Nat) :
    message (unclosedGroup p) = "Expected closing parenthesis ')' at position " ++ toString p := rfl

theorem message_invalidInteger (fault : IntegerFault) (p : Nat) :
    message (invalidInteger fault p) =
      "Invalid integer at position " ++ toString p ++ ": " ++ fault.message := rfl

theorem message_trailingText (remaining : String) (p : Nat) :
    message (trailingText remaining p) =
      "Unexpected characters '" ++ remaining ++ "' after the expression at position " ++
        toString p := rfl

theorem message_tooDeep (limit p : Nat) :
    message (tooDeep limit p) =
      "Parentheses nested deeper than " ++ toString limit ++ " at position " ++ toString p := rfl

/-! Telling diagnostics by their messages. -/

/-- The ninth character of the message, which no two kinds of diagnostics share. -/
def ninth : Diagnostic → Char
  | unexpectedCharacter .. => 'c'
  | unclosedGroup _ => ' '
  | invalidInteger .. => 'i'
  | trailingText .. => 'e'
  | tooDeep .. => 's'

theorem getElem?_message (d : Diagnostic) : d.message.toList[8]? = some d.ninth := by
  cases d with
  | unexpectedCharacter => simp [message_unexpectedCharacter, ninth]
  | unclosedGroup => simp [message_unclosedGroup, ninth]
  | invalidInteger => simp [message_invalidInteger, ninth]
  | trailingText => simp [message_trailingText, ninth]
  | tooDeep => simp [message_tooDeep, ninth]

theorem describe_inj {found found' : Option Char} (h : describe found = describe found') :
    found = found' := by
  have texts := congrArg String.toList h
  cases found <;> cases found' <;> simp [describe] at texts ⊢
  exact texts

theorem message_injective (h : d.message = d'.message) : d = d' := by
  -- within a kind, the number at the end comes off first, whatever is quoted before it
  have kind : d.ninth = d'.ninth := by
    rw [← Option.some.injEq, ← getElem?_message, h, getElem?_message]
  cases d with
  | unexpectedCharacter found p =>
    cases d' with
    | unexpectedCharacter found' p' =>
      obtain ⟨front, rfl⟩ := append_number_inj (c := ' ') (by decide) (by decide) h
      rw [describe_inj ((String.append_right_inj _).1 front)]
    | _ => simp [ninth] at kind
  | unclosedGroup p =>
    cases d' with
    | unclosedGroup p' => rw [toString_nat_inj ((String.append_right_inj _).1 h)]
    | _ => simp [ninth] at kind
  | invalidInteger fault p =>
    cases d' with
    | invalidInteger fault' p' =>
      rw [message_invalidInteger, message_invalidInteger, String.append_assoc, String.append_assoc,
        String.append_assoc, String.append_assoc, String.append_right_inj] at h
      obtain ⟨rfl, same⟩ := number_append_inj (c := ':') (by decide) (by decide) h
      rw [IntegerFault.message_inj same]
    | _ => simp [ninth] at kind
  | trailingText remaining p =>
    cases d' with
    | trailingText remaining' p' =>
      obtain ⟨front, rfl⟩ := append_number_inj (c := ' ') (by decide) (by decide) h
      rw [(String.append_right_inj _).1 front]
    | _ => simp [ninth] at kind
  | tooDeep limit p =>
    cases d' with
    | tooDeep limit' p' =>
      obtain ⟨front, rfl⟩ := append_number_inj (c := ' ') (by decide) (by decide) h
      rw [toString_nat_inj ((String.append_right_inj _).1 front)]
    | _ => simp [ninth] at kind

/-! What a message quotes. -/

/-- The characters of the text that the message repeats. -/
def quoted : Diagnostic → List Char
  | unexpectedCharacter found _ => found.toList
  | trailingText remaining _ => remaining.toList
  | _ => []

theorem newline_notMem_toDigits (n : Nat) : '\n' ∉ Nat.toDigits 10 n := by
  intro newline
  exact absurd (Decimal.isDigit_of_mem_toDigits newline) (by decide)

theorem newline_notMem_message (h : '\n' ∉ d.quoted) : '\n' ∉ d.message.toList := by
  cases d with
  | unexpectedCharacter found p =>
    have number := newline_notMem_toDigits p
    cases found <;> simp_all [message_unexpectedCharacter, describe, quoted]
  | unclosedGroup p => simp [message_unclosedGroup, newline_notMem_toDigits]
  | invalidInteger fault p =>
    cases fault <;> simp [message_invalidInteger, IntegerFault.message, newline_notMem_toDigits]
  | trailingText remaining p =>
    simpa [message_trailingText, newline_notMem_toDigits, quoted] using h
  | tooDeep limit p => simp [message_tooDeep, newline_notMem_toDigits]

end Diagnostic

end ArithExpr
