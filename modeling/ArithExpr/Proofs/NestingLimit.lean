import ArithExpr.Proofs.ViablePrefix
import ArithExpr.Proofs.Salvage

/-! What the nesting limit does. A limit that nothing runs into has no effect, and neither has any
larger one (`parse_widen`). A limit that is too small shows at the first parenthesis that opens one
group too many, and up to there the reading is the one without a limit: two scans of a text under
different limits keep in step until the smaller limit is hit (`Findings.lockstep_scan`). -/

namespace ArithExpr

/-- How many more groups a text opens than it closes. -/
def excess (text : List Char) : Int := text.count '(' - text.count ')'

/-- At no place of the text are more than `limit` groups open. -/
def Shallow (limit : Nat) (text : List Char) : Prop := ∀ n, excess (text.take n) ≤ limit

def Diagnostic.isTooDeep : Diagnostic → Bool
  | tooDeep .. => true
  | _ => false

section

variable {left right text : List Char} {limit : Nat}

theorem excess_append (left right : List Char) :
    excess (left ++ right) = excess left + excess right := by
  simp only [excess, List.count_append]
  omega

theorem count_eq_zero_of_plain (plain : ∀ c ∈ text, c ≠ '(' ∧ c ≠ ')') :
    text.count '(' = 0 ∧ text.count ')' = 0 :=
  ⟨List.count_eq_zero.2 fun h => (plain _ h).1 rfl, List.count_eq_zero.2 fun h => (plain _ h).2 rfl⟩

theorem excess_of_plain (plain : ∀ c ∈ text, c ≠ '(' ∧ c ≠ ')') : excess text = 0 := by
  obtain ⟨opening, closing⟩ := count_eq_zero_of_plain plain
  simp [excess, opening, closing]

theorem Shallow.excess_le (h : Shallow limit text) : excess text ≤ limit := by
  simpa using h text.length

theorem Shallow.append (h : Shallow limit left)
    (more : ∀ n, excess left + excess (right.take n) ≤ limit) : Shallow limit (left ++ right) := by
  intro n
  rw [List.take_append]
  rcases Nat.le_total n left.length with short | long
  · rw [Nat.sub_eq_zero_of_le short, List.take_zero, List.append_nil]
    exact h n
  · rw [List.take_of_length_le long, excess_append]
    exact more _

/-- Behind the text `opened` groups are open, and nowhere in it more than `limit`. -/
structure LeavesOpen (limit opened : Nat) (text : List Char) : Prop where
  excess_eq : excess text = opened
  shallow : Shallow limit text

namespace LeavesOpen

variable {opened : Nat}

theorem nil (limit : Nat) : LeavesOpen limit 0 [] := ⟨rfl, fun n => by simp [excess]⟩

theorem opened_le (h : LeavesOpen limit opened text) : opened ≤ limit := by
  have := h.shallow.excess_le
  rw [h.excess_eq] at this
  omega

theorem append_plain (h : LeavesOpen limit opened left)
    (plain : ∀ c ∈ right, c ≠ '(' ∧ c ≠ ')') : LeavesOpen limit opened (left ++ right) where
  excess_eq := by rw [excess_append, excess_of_plain plain, Int.add_zero, h.excess_eq]
  shallow := by
    refine h.shallow.append fun n => ?_
    rw [excess_of_plain fun c hc => plain c (List.mem_of_mem_take hc), Int.add_zero]
    exact h.shallow.excess_le

theorem append_singleton {opened' : Nat} {c : Char} (h : LeavesOpen limit opened left)
    (step : opened + excess [c] = opened') (room : opened' ≤ limit) :
    LeavesOpen limit opened' (left ++ [c]) where
  excess_eq := by rw [excess_append, h.excess_eq, step]
  shallow := by
    refine h.shallow.append fun n => ?_
    cases n with
    | zero => simpa [excess] using h.shallow.excess_le
    | succ n =>
      rw [List.take_succ_cons, List.take_nil, h.excess_eq, step]
      omega

theorem opens (h : LeavesOpen limit opened left) (room : opened < limit) :
    LeavesOpen limit (opened + 1) (left ++ ['(']) :=
  h.append_singleton rfl room

theorem closes (h : LeavesOpen limit (opened + 1) left) :
    LeavesOpen limit opened (left ++ [')']) := by
  have one : excess [')'] = -1 := rfl
  refine h.append_singleton ?_ (Nat.le_of_succ_le h.opened_le)
  omega

end LeavesOpen

end

namespace Findings

/-- What a scan waits for. -/
inductive Due where
  | operand
  | operator

def scan (limit : Nat) : Due → (position opened : Nat) → List Char → Findings
  | .operand => ofOperand limit
  | .operator => ofOperator limit

/-- What each step of a scan carries over from the scan after it holds of every scan. -/
theorem scan_induction (limit : Nat) {motive : Due → Nat → Nat → List Char → Prop}
    (digits : ∀ position opened digits rest, digits ≠ [] → (∀ c ∈ digits, c.isDigit) →
      (∀ c ∈ rest.head?, ¬ c.isDigit) →
      motive .operator (position + digits.length) opened rest →
      motive .operand position opened (digits ++ rest))
    (opens : ∀ position opened rest, opened < limit →
      motive .operand (position + 1) (opened + 1) rest →
      motive .operand position opened ('(' :: rest))
    (tooDeep : ∀ position opened rest, limit ≤ opened →
      motive .operator (position + 1) opened rest →
      motive .operand position opened ('(' :: rest))
    (unexpected : ∀ position opened text, (∀ c ∈ text.head?, ¬ c.isDigit) →
      text.head? ≠ some '(' → motive .operator position opened text →
      motive .operand position opened text)
    (next : ∀ position opened (op : Operator) rest, motive .operand (position + 1) opened rest →
      motive .operator position opened (op.symbol :: rest))
    (closes : ∀ position opened rest, motive .operator (position + 1) opened rest →
      motive .operator position (opened + 1) (')' :: rest))
    (stops : ∀ position opened text, (∀ op : Operator, text.head? ≠ some op.symbol) →
      (text.head? = some ')' → opened = 0) → motive .operator position opened text)
    (due : Due) (position opened : Nat) (text : List Char) : motive due position opened text := by
  induction size : text.length using Nat.strongRecOn generalizing due position opened text with
  | ind n ih =>
    subst size
    have at_operator : motive .operator position opened text := by
      by_cases operator : ∃ op : Operator, text.head? = some op.symbol
      · obtain ⟨op, hop⟩ := operator
        obtain ⟨rest, rfl⟩ := List.head?_eq_some_iff.1 hop
        exact next _ _ op rest (ih _ (by simp) _ _ _ rest rfl)
      by_cases close : text.head? = some ')' ∧ opened ≠ 0
      · obtain ⟨⟨rest, rfl⟩, k, rfl⟩ : (∃ rest, text = ')' :: rest) ∧ ∃ k, opened = k + 1 :=
          ⟨List.head?_eq_some_iff.1 close.1, Nat.exists_eq_succ_of_ne_zero close.2⟩
        exact closes _ k rest (ih _ (by simp) _ _ _ rest rfl)
      · refine stops _ _ text (fun op hop => operator ⟨op, hop⟩) fun hclose => ?_
        by_contra opened_ne
        exact close ⟨hclose, opened_ne⟩
    cases due with
    | operator => exact at_operator
    | operand =>
      obtain ⟨run, rest, rfl, digit, ends⟩ := exists_digits_append text
      by_cases nonempty : run = []
      · subst nonempty
        by_cases group : rest.head? = some '('
        · obtain ⟨rest, rfl⟩ := List.head?_eq_some_iff.1 group
          rcases Nat.lt_or_ge opened limit with room | deep
          · exact opens _ _ rest room (ih _ (by simp) _ _ _ rest rfl)
          · exact tooDeep _ _ rest deep (ih _ (by simp) _ _ _ rest rfl)
        · exact unexpected _ _ rest ends group at_operator
      · have shorter : rest.length < (run ++ rest).length := by
          simpa using List.length_pos_iff.2 nonempty
        exact digits _ _ run rest nonempty digit ends (ih _ shorter _ _ _ rest rfl)

variable {limit wide : Nat} {text seen rest : List Char} {f g : Findings}

theorem le_consumed_scan (limit : Nat) (due : Due) (position opened : Nat) (text : List Char) :
    position ≤ (scan limit due position opened text).consumed := by
  induction due, position, opened, text using scan_induction limit with
    dsimp only [scan] at *
  | digits position opened digits rest nonempty digit ends ih =>
    rw [ofOperand_digits nonempty digit ends]
    split <;> exact Nat.le_trans (Nat.le_add_right _ _) ih
  | opens position opened rest room ih =>
    rw [ofOperand_open room]
    exact Nat.le_of_succ_le ih
  | tooDeep position opened rest deep ih =>
    rw [ofOperand_tooDeep deep]
    exact Nat.le_of_succ_le ih
  | unexpected position opened text no_digit no_group ih =>
    rw [ofOperand_unexpected no_digit no_group]
    exact ih
  | next position opened op rest ih =>
    rw [ofOperator_operator]
    exact Nat.le_of_succ_le ih
  | closes position opened rest ih =>
    rw [ofOperator_close]
    exact Nat.le_of_succ_le ih
  | stops position opened text no_operator no_close =>
    rw [ofOperator_stop no_operator no_close]
    exact Nat.le_refl _

/-- Scans of a text under a limit and under a wider one. Either the limit is never hit, and they
agree; or it is, at the parenthesis behind `seen`, and they agree up to there. -/
def Lockstep (limit : Nat) (text : List Char) (f g : Findings) : Prop :=
  (f = g ∧ (∀ d ∈ f.diagnostics, ¬ d.isTooDeep) ∧ Shallow limit (text.take g.consumed)) ∨
    ∃ seen rest before after, text = seen ++ '(' :: rest ∧ Shallow limit seen ∧
      excess seen = limit ∧ seen.length < g.consumed ∧
      f.diagnostics = before ++ .tooDeep limit seen.length :: after ∧
      (∀ d ∈ before, ¬ d.isTooDeep) ∧ before <+: g.diagnostics

theorem Lockstep.cons (h : Lockstep limit text f g) {d : Diagnostic} (hd : ¬ d.isTooDeep) :
    Lockstep limit text (f.cons d) (g.cons d) := by
  rcases h with ⟨rfl, shallow, within⟩ | ⟨seen, rest, before, after, split, within, full, read,
    found, shallow, initial⟩
  · exact .inl ⟨rfl, by simpa [hd] using shallow, within⟩
  · refine .inr ⟨seen, rest, d :: before, after, split, within, full, read, by simp [found],
      by simpa [hd] using shallow, ?_⟩
    exact (List.prefix_cons_inj d).2 initial

theorem not_tooDeep_of_mem_stop {position opened : Nat} {d : Diagnostic}
    (h : d ∈ (stop position opened rest).diagnostics) : ¬ d.isTooDeep := by
  unfold stop at h
  rcases List.mem_append.1 h with h | h
  · rw [List.eq_of_mem_replicate h]
    exact Bool.false_ne_true
  · rw [Diagnostic.eq_of_mem_leftover h]
    exact Bool.false_ne_true

theorem lockstep_scan (le : limit ≤ wide) (due : Due) (position opened : Nat) (rest : List Char) :
    ∀ seen, seen.length = position → LeavesOpen limit opened seen →
      Lockstep limit (seen ++ rest) (scan limit due position opened rest)
        (scan wide due position opened rest) := by
  -- what has been seen grows by what each step takes, so that the text stays the same
  induction due, position, opened, rest using scan_induction limit with
    (intro seen length before; subst length; dsimp only [scan] at *)
  | digits _ opened digits rest nonempty digit ends ih =>
    have behind := ih (seen ++ digits) (by simp)
      (before.append_plain fun c hc => plain_of_isDigit (digit c hc))
    rw [ofOperand_digits nonempty digit ends, ofOperand_digits nonempty digit ends,
      ← List.append_assoc]
    split
    · exact behind.cons Bool.false_ne_true
    · exact behind
  | opens _ opened rest room ih =>
    rw [ofOperand_open room, ofOperand_open (Nat.lt_of_lt_of_le room le)]
    simpa using ih (seen ++ ['(']) (by simp) (before.opens room)
  | tooDeep _ opened rest deep ih =>
    have full : excess seen = limit := by
      rw [before.excess_eq, Nat.le_antisymm before.opened_le deep]
    have read : seen.length < (ofOperand wide seen.length opened ('(' :: rest)).consumed := by
      rcases Nat.lt_or_ge opened wide with room | deep
      · rw [ofOperand_open room]
        exact le_consumed_scan wide .operand _ _ _
      · rw [ofOperand_tooDeep deep]
        exact le_consumed_scan wide .operator _ _ _
    rw [ofOperand_tooDeep deep]
    exact .inr ⟨seen, rest, [], _, rfl, before.shallow, full, read, rfl, by simp, List.nil_prefix⟩
  | unexpected _ opened text no_digit no_group ih =>
    rw [ofOperand_unexpected no_digit no_group, ofOperand_unexpected no_digit no_group]
    exact (ih seen rfl before).cons Bool.false_ne_true
  | next _ opened op rest ih =>
    rw [ofOperator_operator, ofOperator_operator]
    simpa using ih (seen ++ [op.symbol]) (by simp)
      (before.append_plain (by simpa using op.symbol_plain))
  | closes _ opened rest ih =>
    rw [ofOperator_close, ofOperator_close]
    simpa using ih (seen ++ [')']) (by simp) before.closes
  | stops _ opened text no_operator no_close =>
    have stopped : (stop seen.length opened text).consumed = seen.length := rfl
    rw [ofOperator_stop no_operator no_close, ofOperator_stop no_operator no_close]
    refine .inl ⟨rfl, fun d => not_tooDeep_of_mem_stop, ?_⟩
    rw [stopped, List.take_left]
    exact before.shallow

end Findings

section

variable {part : Part} {limit wide opened position : Nat} {next : Option Char}
  {tree : Option Expr} {ds : List Diagnostic} {chars : List Char} {text : String}

/-- A reading that does not run into the limit is the same under any larger one. -/
theorem Salvages.widen (h : Salvages limit part opened position chars next tree ds)
    (le : limit ≤ wide) (shallow : ∀ d ∈ ds, ¬ d.isTooDeep) :
    Salvages wide part opened position chars next tree ds := by
  induction h with
  | literal nonempty digit ends value => exact .literal nonempty digit ends value
  | overflow nonempty digit ends large => exact .overflow nonempty digit ends large
  | unexpected no_digit no_group => exact .unexpected no_digit no_group
  | tooDeep => exact absurd rfl (shallow _ List.mem_cons_self)
  | closed room _ ih => exact .closed (Nat.lt_of_lt_of_le room le) (ih shallow)
  | unclosed room _ ends no_close ih =>
    exact .unclosed (Nat.lt_of_lt_of_le room le)
      (ih fun d hd => shallow d (List.mem_append_left _ hd)) ends no_close
  | operand _ ends ih => exact .operand (ih shallow) ends
  | chain _ _ ends ih_first ih_last =>
    exact .chain (ih_first fun d hd => shallow d (List.mem_append_left _ hd))
      (ih_last fun d hd => shallow d (List.mem_append_right _ hd)) ends

/-- A text of so few characters cannot open more groups than the limit allows. -/
theorem Salvages.not_tooDeep (h : Salvages limit part opened position chars next tree ds)
    (room : opened + chars.length ≤ limit) : ∀ d ∈ ds, ¬ d.isTooDeep := by
  induction h with
  | literal => simp
  | overflow | unexpected => simp [Diagnostic.isTooDeep]
  | tooDeep deep => exact absurd room (by simp; omega)
  | closed _ _ ih =>
    simp only [List.length_append, List.length_cons] at room
    exact ih (by omega)
  | unclosed _ _ _ _ ih =>
    simp only [List.length_cons] at room
    have inner := ih (by omega)
    simpa [or_imp, forall_and, Diagnostic.isTooDeep] using inner
  | operand _ _ ih => exact ih room
  | chain _ _ _ ih_first ih_last =>
    simp only [List.length_append, List.length_cons] at room
    intro d hd
    rcases List.mem_append.1 hd with hd | hd
    · exact ih_first (by omega) d hd
    · exact ih_last (by omega) d hd

theorem parse_widen (le : limit ≤ wide)
    (shallow : ∀ d ∈ (parse text limit).diagnostics, ¬ d.isTooDeep) :
    parse text wide = parse text limit := by
  obtain ⟨taken, more, tree, ds, rfl, salvages, ends⟩ := exists_salvages_parse text limit
  rw [parse_eq_of_salvages salvages ends] at shallow ⊢
  exact parse_eq_of_salvages
    (salvages.widen le fun d hd => shallow d (List.mem_append_left _ hd)) ends

theorem not_tooDeep_parse (room : text.length ≤ wide) :
    ∀ d ∈ (parse text wide).diagnostics, ¬ d.isTooDeep := by
  obtain ⟨taken, more, tree, ds, rfl, salvages, ends⟩ := exists_salvages_parse text wide
  rw [parse_eq_of_salvages salvages ends]
  rw [String.length_ofList, List.length_append] at room
  intro d hd
  rcases List.mem_append.1 hd with hd | hd
  · exact salvages.not_tooDeep (by omega) d hd
  · rw [Diagnostic.eq_of_mem_leftover hd]
    exact Bool.false_ne_true

theorem lockstep_parse (le : limit ≤ wide) : Findings.Lockstep limit text.toList
    ⟨(parse text limit).diagnostics, (parse text limit).consumed⟩
    ⟨(parse text wide).diagnostics, (parse text wide).consumed⟩ := by
  rw [← findings_parse, ← findings_parse]
  exact Findings.lockstep_scan le .operand 0 0 text.toList [] rfl (.nil limit)

/-- With room for as many groups as the text has characters, nothing is too deep. Under any limit,
the outcome is that one if no part of what it reads has more groups open than the limit allows.
Otherwise there is a first parenthesis that opens one group too many; it is the first thing found
too deep, and what is found before it is what is found first without a limit. So an outcome in which
nothing is too deep stays the same under all larger limits. -/
theorem nesting_limit_effect (roomy : text.length ≤ wide) (limit : Nat) :
    let u := parse text wide
    let o := parse text limit
    (∀ d ∈ u.diagnostics, ¬ d.isTooDeep) ∧
      ((∀ n ≤ u.consumed, excess (text.toList.take n) ≤ limit) → o = u) ∧
      (¬ (∀ n ≤ u.consumed, excess (text.toList.take n) ≤ limit) →
        ∃ p before after, o.diagnostics = before ++ .tooDeep limit p :: after ∧
          (∀ d ∈ before, ¬ d.isTooDeep) ∧ before <+: u.diagnostics ∧ p < u.consumed ∧
          text.toList[p]? = some '(' ∧ excess (text.toList.take (p + 1)) = limit + 1 ∧
          ∀ n ≤ p, excess (text.toList.take n) ≤ limit) ∧
      ((∀ d ∈ o.diagnostics, ¬ d.isTooDeep) →
        ∀ larger, limit ≤ larger → parse text larger = o) := by
  intro u o
  have shallow := not_tooDeep_parse roomy
  have unlimited : parse text (max limit wide) = u := parse_widen (Nat.le_max_right _ _) shallow
  have step : Findings.Lockstep limit text.toList _ _ :=
    lockstep_parse (Nat.le_max_left limit wide)
  rw [unlimited] at step
  have widens : (∀ d ∈ o.diagnostics, ¬ d.isTooDeep) →
      ∀ larger, limit ≤ larger → parse text larger = o :=
    fun none_deep larger le => parse_widen le none_deep
  rcases step with ⟨-, none_deep, within⟩ | ⟨seen, rest, before, after, split, within, full, read,
    found, none_before, initial⟩
  · have same : o = u := (widens none_deep _ (Nat.le_max_left limit wide)).symm.trans unlimited
    have bounded : ∀ n ≤ u.consumed, excess (text.toList.take n) ≤ limit := by
      intro n hn
      have here := within n
      rwa [List.take_take, Nat.min_eq_left hn] at here
    exact ⟨shallow, fun _ => same, fun exceeded => absurd bounded exceeded, widens⟩
  · have opens : text.toList[seen.length]? = some '(' := by simp [split]
    have exceeds : excess (text.toList.take (seen.length + 1)) = limit + 1 := by
      rw [List.take_add_one, opens, split, List.take_left, excess_append, full]
      rfl
    have below : ∀ n ≤ seen.length, excess (text.toList.take n) ≤ limit := by
      intro n hn
      rw [split, List.take_append_of_le_length hn]
      exact within n
    refine ⟨shallow, fun bounded => ?_, fun _ => ?_, widens⟩
    · have := bounded (seen.length + 1) read
      omega
    · exact ⟨seen.length, before, after, found, none_before, initial, read, opens, exceeds, below⟩

end

/-- Four groups are opened and one is closed, and an operand is missing before the limit is hit. -/
theorem nesting_limit_effect_on_unclosed :
    "(*(2+((3)".length ≤ 9 ∧ parse "(*(2+((3)" 4 = parse "(*(2+((3)" 9 ∧
      (∀ larger, 4 ≤ larger → parse "(*(2+((3)" larger = parse "(*(2+((3)" 4) ∧
      ∃ p before after, (parse "(*(2+((3)" 2).diagnostics = before ++ .tooDeep 2 p :: after ∧
        before <+: (parse "(*(2+((3)" 9).diagnostics ∧ "(*(2+((3)".toList[p]? = some '(' ∧
        excess ("(*(2+((3)".toList.take (p + 1)) = 3 := by
  have roomy : "(*(2+((3)".length ≤ 9 := by decide
  have within : ∀ n ≤ (parse "(*(2+((3)" 9).consumed,
      excess ("(*(2+((3)".toList.take n) ≤ 4 := by decide +kernel
  have shallow : ∀ d ∈ (parse "(*(2+((3)" 4).diagnostics, ¬ d.isTooDeep := by decide +kernel
  have exceeded : ¬ ∀ n ≤ (parse "(*(2+((3)" 9).consumed,
      excess ("(*(2+((3)".toList.take n) ≤ 2 := by decide +kernel
  obtain ⟨-, same, -, larger⟩ := nesting_limit_effect roomy 4
  obtain ⟨-, -, hit, -⟩ := nesting_limit_effect roomy 2
  obtain ⟨p, before, after, found, -, initial, -, opens, exceeds, -⟩ := hit exceeded
  exact ⟨roomy, same within, larger shallow, p, before, after, found, initial, opens, exceeds⟩

end ArithExpr
