/-! Decimal notation of 64-bit integers: the digits of a value, and the value of a run of digits.
A run may begin with zeros and has no bound on its length; only its value is bounded. -/

namespace ArithExpr.Decimal

/-- The decimal digits of an integer, after a minus sign if it is negative. -/
def ofInt (i : Int) : List Char :=
  if i < 0 then '-' :: Nat.toDigits 10 i.natAbs else Nat.toDigits 10 i.natAbs

/-- The number that a run of digits denotes. -/
def value (digits : List Char) : Nat := Nat.ofDigitChars 10 digits 0

/-- The integer that a run of digits denotes, if it is below `2 ^ 63`. -/
def toInt64? (digits : List Char) : Option Int64 :=
  if value digits < Nat.pow 2 63 then some (Int64.ofNat (value digits)) else none

theorem ofInt_of_nonneg {i : Int} (h : 0 ≤ i) : ofInt i = Nat.toDigits 10 i.natAbs :=
  if_neg (Int.not_lt.2 h)

theorem ofInt_of_neg {i : Int} (h : i < 0) : ofInt i = '-' :: Nat.toDigits 10 i.natAbs :=
  if_pos h

theorem value_toDigits (n : Nat) : value (Nat.toDigits 10 n) = n :=
  Nat.ofDigitChars_ten_toDigits

theorem toDigits_inj {m n : Nat} (h : Nat.toDigits 10 m = Nat.toDigits 10 n) : m = n := by
  rw [← value_toDigits m, h, value_toDigits]

theorem isDigit_of_mem_toDigits {n : Nat} {c : Char} (h : c ∈ Nat.toDigits 10 n) : c.isDigit :=
  Nat.isDigit_of_mem_toDigits (by decide) (by decide) h

theorem ofInt_ne_nil (i : Int) : ofInt i ≠ [] := by
  unfold ofInt
  split
  · exact List.cons_ne_nil _ _
  · exact Nat.toDigits_ne_nil

theorem minus_or_digit_of_mem_ofInt {i : Int} {c : Char} (h : c ∈ ofInt i) :
    c = '-' ∨ c.isDigit := by
  unfold ofInt at h
  split at h
  · exact (List.mem_cons.1 h).imp_right isDigit_of_mem_toDigits
  · exact .inr (isDigit_of_mem_toDigits h)

theorem toInt64?_eq_none_iff {digits : List Char} :
    toInt64? digits = none ↔ Nat.pow 2 63 ≤ value digits := by
  simp [toInt64?]

theorem toInt64?_eq_some_iff {digits : List Char} {v : Int64} :
    toInt64? digits = some v ↔ v.toInt = value digits := by
  have bounds := v.toInt_lt
  simp only [toInt64?]
  split
  · rename_i small
    have read_back : (Int64.ofNat (value digits)).toInt = value digits :=
      Int64.toInt_ofNat_of_lt (by simpa using small)
    rw [Option.some.injEq, ← read_back, ← Int64.toInt_inj, eq_comm]
  · rename_i large
    simp only [reduceCtorEq, false_iff]
    rw [Nat.pow_eq] at large
    omega

theorem value_append_singleton (digits : List Char) (c : Char) :
    value (digits ++ [c]) = 10 * value digits + (c.toNat - '0'.toNat) := by
  rw [value, Nat.ofDigitChars_append, Nat.ofDigitChars_cons, Nat.ofDigitChars_nil]
  rfl

theorem value_le_value_append (digits more : List Char) : value digits ≤ value (digits ++ more) := by
  rw [value, value, Nat.ofDigitChars_append, Nat.ofDigitChars_eq_ofDigitChars_zero (l := more)]
  calc Nat.ofDigitChars 10 digits 0
      ≤ 10 ^ more.length * Nat.ofDigitChars 10 digits 0 :=
        Nat.le_mul_of_pos_left _ (Nat.pow_pos (by decide))
    _ ≤ _ := Nat.le_add_right _ _

theorem toInt64?_append_eq_none {digits : List Char} (h : toInt64? digits = none)
    (more : List Char) : toInt64? (digits ++ more) = none :=
  toInt64?_eq_none_iff.2
    (Nat.le_trans (toInt64?_eq_none_iff.1 h) (value_le_value_append digits more))

/-! The run of digits at the front of a text. -/

section

variable {digits rest : List Char} (digit : ∀ c ∈ digits, c.isDigit)
  (ends : ∀ c ∈ rest.head?, ¬ c.isDigit)

include digit ends

theorem takeWhile_isDigit_append : (digits ++ rest).takeWhile Char.isDigit = digits := by
  rw [List.takeWhile_append_of_pos digit]
  cases rest <;> simp_all

theorem dropWhile_isDigit_append : (digits ++ rest).dropWhile Char.isDigit = rest := by
  rw [List.dropWhile_append_of_pos digit]
  cases rest <;> simp_all

end

/-! Digits can be told from what stands before them or behind them. -/

theorem digits_append_ne {c : Char} (no_digit : ¬ c.isDigit) {digits : List Char}
    (nonempty : digits ≠ []) (digit : ∀ c ∈ digits, c.isDigit) (rest text : List Char) :
    digits ++ rest ≠ c :: text := by
  obtain ⟨d, more, rfl⟩ := List.exists_cons_of_ne_nil nonempty
  rintro ⟨⟩
  exact no_digit (digit _ List.mem_cons_self)

theorem digits_append_inj {digits digits' rest rest' : List Char}
    (digit : ∀ c ∈ digits, c.isDigit) (digit' : ∀ c ∈ digits', c.isDigit)
    (ends : ∀ c ∈ rest.head?, ¬ c.isDigit) (ends' : ∀ c ∈ rest'.head?, ¬ c.isDigit)
    (h : digits ++ rest = digits' ++ rest') : digits = digits' ∧ rest = rest' := by
  have same : digits = digits' := by
    rw [← takeWhile_isDigit_append digit ends, h, takeWhile_isDigit_append digit' ends']
  subst same
  exact ⟨rfl, List.append_cancel_left h⟩

theorem toDigits_append_inj {m n : Nat} {rest rest' : List Char}
    (ends : ∀ c ∈ rest.head?, ¬ c.isDigit) (ends' : ∀ c ∈ rest'.head?, ¬ c.isDigit)
    (h : Nat.toDigits 10 m ++ rest = Nat.toDigits 10 n ++ rest') : m = n ∧ rest = rest' := by
  obtain ⟨same, behind⟩ := digits_append_inj (fun c => isDigit_of_mem_toDigits)
    (fun c => isDigit_of_mem_toDigits) ends ends' h
  exact ⟨toDigits_inj same, behind⟩

/-- A minus sign in front leaves no doubt either. -/
theorem ofInt_append_inj {i j : Int} {rest rest' : List Char}
    (ends : ∀ c ∈ rest.head?, ¬ c.isDigit) (ends' : ∀ c ∈ rest'.head?, ¬ c.isDigit)
    (h : ofInt i ++ rest = ofInt j ++ rest') : i = j ∧ rest = rest' := by
  have unsigned (n : Nat) (rest text : List Char) : Nat.toDigits 10 n ++ rest ≠ '-' :: text :=
    digits_append_ne (by decide) Nat.toDigits_ne_nil (fun c => isDigit_of_mem_toDigits) rest text
  rcases Int.lt_or_le i 0 with neg | nonneg <;> rcases Int.lt_or_le j 0 with neg' | nonneg'
  · rw [ofInt_of_neg neg, ofInt_of_neg neg'] at h
    obtain ⟨same, behind⟩ := toDigits_append_inj ends ends' (List.cons.inj h).2
    exact ⟨by omega, behind⟩
  · rw [ofInt_of_neg neg, ofInt_of_nonneg nonneg'] at h
    exact absurd h.symm (unsigned _ _ _)
  · rw [ofInt_of_nonneg nonneg, ofInt_of_neg neg'] at h
    exact absurd h (unsigned _ _ _)
  · rw [ofInt_of_nonneg nonneg, ofInt_of_nonneg nonneg'] at h
    obtain ⟨same, behind⟩ := toDigits_append_inj ends ends' h
    exact ⟨by omega, behind⟩

theorem ofInt_inj {i j : Int} (h : ofInt i = ofInt j) : i = j :=
  (ofInt_append_inj (by simp) (by simp) (congrArg (· ++ []) h)).1

theorem append_digits_inj {digits digits' front front' : List Char}
    (digit : ∀ c ∈ digits, c.isDigit) (digit' : ∀ c ∈ digits', c.isDigit)
    (begins : ∀ c ∈ front.getLast?, ¬ c.isDigit) (begins' : ∀ c ∈ front'.getLast?, ¬ c.isDigit)
    (h : front ++ digits = front' ++ digits') : front = front' ∧ digits = digits' := by
  have turned : digits.reverse ++ front.reverse = digits'.reverse ++ front'.reverse := by
    rw [← List.reverse_append, h, List.reverse_append]
  obtain ⟨same, same'⟩ := digits_append_inj (by simpa using digit) (by simpa using digit')
    (by simpa using begins) (by simpa using begins') turned
  exact ⟨List.reverse_inj.1 same', List.reverse_inj.1 same⟩

end ArithExpr.Decimal
