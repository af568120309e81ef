import Mathlib.Data.List.Induction
import Mathlib.Data.Nat.Digits.Defs
import ArithExpr.Proofs.Steps

/-! Reading an integer. All digits at the front of the text are read, however many there are and
however large their value is; the value alone decides whether they are an integer. The same comes of
computing it digit by digit in 64-bit arithmetic that gives up at the first result that does not fit
(`accumulate?_eq_toInt64?`). -/

namespace ArithExpr

/-- The text begins with this run of digits, which goes on as far as it can. -/
structure IsDigitRun (text run behind : List Char) : Prop where
  split : text = run ++ behind
  digit : ∀ c ∈ run, '0' ≤ c ∧ c ≤ '9'
  maximal : ∀ c ∈ behind.head?, ¬ ('0' ≤ c ∧ c ≤ '9')

theorem isDigit_iff {c : Char} : c.isDigit ↔ '0' ≤ c ∧ c ≤ '9' := by
  simp [Char.isDigit, Char.le_def]

namespace Decimal

def digitValue (c : Char) : Nat := c.toNat - '0'.toNat

/-- The sum of the digits by place, the last one for ones. -/
def placeValue (digits : List Char) : Nat := Nat.ofDigits 10 (digits.reverse.map digitValue)

theorem value_eq_placeValue (digits : List Char) : value digits = placeValue digits := by
  unfold placeValue
  induction digits using List.reverseRecOn with
  | nil => rfl
  | append_singleton digits c ih =>
    rw [value_append_singleton, List.reverse_concat, List.map_cons, Nat.ofDigits_cons, ih,
      Nat.add_comm]
    rfl

theorem value_zeros_append (zeros : Nat) (digits : List Char) :
    value (List.replicate zeros '0' ++ digits) = value digits := by
  induction zeros with
  | zero => rfl
  | succ zeros ih => exact ih

theorem toInt64?_zeros_append (zeros : Nat) (digits : List Char) :
    toInt64? (List.replicate zeros '0' ++ digits) = toInt64? digits := by
  rw [toInt64?, toInt64?, value_zeros_append]

/-! Arithmetic in 64 bits. -/

/-- The integer, if 64 bits can hold it. -/
def fit? (i : Int) : Option Int64 :=
  if -2 ^ 63 ≤ i ∧ i < 2 ^ 63 then some (Int64.ofInt i) else none

/-- The number with one more digit behind it. Neither the product nor the sum may overflow. -/
def push? (v : Int64) (c : Char) : Option Int64 :=
  (fit? (v.toInt * 10)).bind fun shifted => fit? (shifted.toInt + digitValue c)

def accumulate? (digits : List Char) : Option Int64 := digits.foldlM push? 0

variable {digits : List Char} {i : Int} {v w : Int64} {c : Char}

theorem fit?_eq_some_iff : fit? i = some v ↔ v.toInt = i := by
  unfold fit?
  split
  · rename_i fits
    have read_back : (Int64.ofInt i).toInt = i := Int64.toInt_ofInt_of_le fits.1 fits.2
    rw [Option.some.injEq, ← Int64.toInt_inj, read_back, eq_comm]
  · rename_i no_fit
    apply iff_of_false nofun
    rintro rfl
    exact no_fit ⟨v.le_toInt, v.toInt_lt⟩

theorem exists_toInt_eq (nonneg : 0 ≤ i) (le : i ≤ w.toInt) : ∃ v : Int64, v.toInt = i := by
  have := w.toInt_lt
  exact ⟨Int64.ofInt i, Int64.toInt_ofInt_of_le (by omega) (by omega)⟩

theorem push?_eq_some_iff (nonneg : 0 ≤ v.toInt) :
    push? v c = some w ↔ w.toInt = v.toInt * 10 + digitValue c := by
  rw [push?, Option.bind_eq_some_iff]
  simp only [fit?_eq_some_iff]
  refine ⟨?_, ?_⟩
  · rintro ⟨shifted, same, sum⟩
    rw [sum, same]
  · intro sum
    obtain ⟨shifted, same⟩ := exists_toInt_eq (i := v.toInt * 10) (w := w) (by omega) (by omega)
    exact ⟨shifted, same, by rw [sum, same]⟩

theorem accumulate?_append_singleton :
    accumulate? (digits ++ [c]) = (accumulate? digits).bind (push? · c) := by
  simp [accumulate?, List.foldlM_append]

theorem accumulate?_eq_some_iff : accumulate? digits = some w ↔ w.toInt = value digits := by
  -- on the last digit: what can be held with it could be held without it
  induction digits using List.reverseRecOn generalizing w with
  | nil =>
    have none_read : accumulate? [] = some 0 := rfl
    rw [none_read, Option.some.injEq, ← Int64.toInt_inj, eq_comm]
    rfl
  | append_singleton digits c ih =>
    have sum : (value (digits ++ [c]) : Int) = value digits * 10 + digitValue c := by
      rw [value_append_singleton, digitValue]
      omega
    rw [accumulate?_append_singleton, Option.bind_eq_some_iff, sum]
    refine ⟨?_, ?_⟩
    · rintro ⟨v, front, last⟩
      have front := ih.1 front
      rw [(push?_eq_some_iff (by omega)).1 last, front]
    · intro all
      obtain ⟨v, front⟩ := exists_toInt_eq (i := value digits) (w := w) (by omega) (by omega)
      exact ⟨v, ih.2 front, (push?_eq_some_iff (by omega)).2 (by rw [all, front])⟩

theorem accumulate?_eq_toInt64? (digits : List Char) : accumulate? digits = toInt64? digits := by
  ext v
  rw [accumulate?_eq_some_iff, toInt64?_eq_some_iff]

end Decimal

namespace Reader

variable {s : Reader} {v : Int64} {d : Diagnostic}

theorem isDigitRun_digits (s : Reader) :
    IsDigitRun s.rest s.digits (s.rest.drop s.digits.length) where
  split := rest_eq_digits_append
  digit := fun c hc => isDigit_iff.1 (isDigit_of_mem_digits c hc)
  maximal := fun c hc => mt isDigit_iff.2 (s.not_isDigit_after_digits c hc)

/-! The result of reading an integer. -/

theorem integer_of_no_digit (no_digit : s.digits = []) :
    s.integer.1 = .error (.invalidInteger .noLeadingDigit s.position) := if_pos no_digit

theorem integer_of_value (digit : s.digits ≠ []) (value : Decimal.toInt64? s.digits = some v) :
    s.integer.1 = .ok v := by
  simp [integer, digit, value]

theorem integer_of_overflow (digit : s.digits ≠ []) (large : Decimal.toInt64? s.digits = none) :
    s.integer.1 = .error (.invalidInteger .overflow s.position) := by
  simp [integer, digit, large]

theorem integer_eq_ok_iff :
    s.integer.1 = .ok v ↔ s.digits ≠ [] ∧ Decimal.toInt64? s.digits = some v := by
  by_cases digit : s.digits = []
  · simp [integer_of_no_digit digit, digit]
  · cases value : Decimal.toInt64? s.digits with
    | none => simp [integer_of_overflow digit value]
    | some w => simp [integer_of_value digit value, digit]

theorem integer_eq_error_iff : s.integer.1 = .error d ↔
    (s.digits = [] ∧ d = .invalidInteger .noLeadingDigit s.position) ∨
    (s.digits ≠ [] ∧ Decimal.toInt64? s.digits = none ∧
      d = .invalidInteger .overflow s.position) := by
  by_cases digit : s.digits = []
  · simp [integer_of_no_digit digit, digit, eq_comm]
  · cases value : Decimal.toInt64? s.digits with
    | none => simp [integer_of_overflow digit value, digit, eq_comm]
    | some w => simp [integer_of_value digit value, digit]

/-- Of the digits only their value counts. -/
theorem integer_congr {t : Reader} (place : s.position = t.position)
    (no_digit : s.digits = [] ↔ t.digits = [])
    (value : Decimal.toInt64? s.digits = Decimal.toInt64? t.digits) :
    s.integer.1 = t.integer.1 := by
  simp only [integer, place, no_digit, value]

theorem toOption_integer (digit : s.digits ≠ []) :
    s.integer.1.toOption = Decimal.accumulate? s.digits := by
  rw [Decimal.accumulate?_eq_toInt64?]
  cases value : Decimal.toInt64? s.digits with
  | none => rw [integer_of_overflow digit value, Except.toOption]
  | some v => rw [integer_of_value digit value, Except.toOption]

/-- Reading an integer takes all digits at the front of the text and changes nothing else. It comes
to their value, as long as there is a digit and 64 bits can hold the value; otherwise it comes to a
fault at the place where the integer should have begun. To go on from digit to digit and give up at
the first number that 64 bits cannot hold comes to the same, and zeros in front have no part in
it. -/
theorem integer_exact (s : Reader) :
    ∃ run behind, IsDigitRun s.rest run behind ∧
      s.integer.2 = { s with rest := behind, position := s.position + run.length } ∧
      (∀ v, s.integer.1 = .ok v ↔
        run ≠ [] ∧ Decimal.placeValue run ≤ 2 ^ 63 - 1 ∧ v.toInt = Decimal.placeValue run) ∧
      (∀ d, s.integer.1 = .error d ↔
        (run = [] ∧ d = .invalidInteger .noLeadingDigit s.position) ∨
        (run ≠ [] ∧ 2 ^ 63 - 1 < Decimal.placeValue run ∧
          d = .invalidInteger .overflow s.position)) ∧
      (run ≠ [] → s.integer.1.toOption = Decimal.accumulate? run) ∧
      ∀ zeros more, run = List.replicate zeros '0' ++ more → more ≠ [] →
        s.integer.1 = ({ s with rest := more ++ behind } : Reader).integer.1 := by
  refine ⟨s.digits, _, s.isDigitRun_digits, s.skipDigits_eq, ?_, ?_, toOption_integer, ?_⟩
  · intro v
    have upper := v.toInt_lt
    rw [integer_eq_ok_iff, ← Decimal.value_eq_placeValue, Decimal.toInt64?_eq_some_iff]
    apply and_congr_right
    intro _
    refine ⟨?_, And.right⟩
    intro value
    exact ⟨by omega, value⟩
  · intro d
    rw [integer_eq_error_iff, ← Decimal.value_eq_placeValue, Decimal.toInt64?_eq_none_iff]
    rfl
  · intro zeros more split several
    have digit : ∀ c ∈ more, c.isDigit := by
      intro c hc
      exact isDigit_of_mem_digits c (split ▸ List.mem_append_right _ hc)
    have without : digits { s with rest := more ++ s.rest.drop s.digits.length } = more :=
      digits_of_eq_append rfl digit s.not_isDigit_after_digits
    refine integer_congr rfl ?_ ?_
    · rw [without, split]
      simp [several]
    · rw [without, split, Decimal.toInt64?_zeros_append]

/-- A digit of another script ends a run. -/
example : (ofChars ['4', '2', '\u0663'] 0).integer.2.rest = ['\u0663'] := by decide

end Reader

end ArithExpr
