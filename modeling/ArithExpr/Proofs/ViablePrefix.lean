import ArithExpr.Proofs.FlatScan
import ArithExpr.Proofs.Sentences

/-! The first diagnostic marks the end of what could still become a sentence: some text continues
all that is before it without fault, and no text continues all that shows it. The flat scan carries
the proof. Characters that it takes without a report do not matter to what comes after, so a mark
behind them stays a mark (`MarksPrefix.step`), and where it reports, it would report again whatever
came after the evidence (`MarksPrefix.here`). -/

namespace ArithExpr

namespace Diagnostic

/-- The characters that show a diagnostic, where `rest` is the text from its place on: all the
digits of a literal that is too large, otherwise one character. -/
def evidence : Diagnostic → List Char → List Char
  | invalidInteger .overflow _, rest => rest.takeWhile Char.isDigit
  | _, rest => rest.take 1

/-- Where the evidence for a diagnostic ends in the text. -/
def reach : Diagnostic → List Char → Nat
  | invalidInteger .overflow p, text => p + ((text.drop p).takeWhile Char.isDigit).length
  | d, _ => d.position + 1

theorem take_reach (d : Diagnostic) (text : List Char) : text.take (d.reach text) =
    text.take d.position ++ d.evidence (text.drop d.position) := by
  have one : ∀ p, text.take (p + 1) = text.take p ++ (text.drop p).take 1 := fun p => List.take_add
  rcases d with _ | _ | ⟨_ | _, p⟩ | _ | _
  case invalidInteger.overflow =>
    have digits := List.prefix_iff_eq_take.1 (List.takeWhile_prefix Char.isDigit (l := text.drop p))
    exact List.take_add.trans (congrArg _ digits.symm)
  all_goals exact one _

end Diagnostic

namespace Findings

variable {limit position opened : Nat} {digits rest text : List Char} {d : Diagnostic}

/-- The first diagnostic of the scan, if there is one, stands behind a beginning of the text that
can be continued without fault, and the evidence for it cannot. -/
def MarksPrefix (scan : List Char → Findings) (position : Nat) (text : List Char) : Prop :=
  ∀ d ds, (scan text).diagnostics = d :: ds → ∃ seen rest, text = seen ++ rest ∧
    d.position = position + seen.length ∧ (d.evidence rest).head? = rest.head? ∧
    (∃ w, (scan (seen ++ w)).diagnostics = []) ∧
    (rest ≠ [] → ∀ more, (scan (seen ++ d.evidence rest ++ more)).diagnostics ≠ [])

namespace MarksPrefix

variable {scan scan' : List Char → Findings}

theorem step (eaten : List Char) (h : MarksPrefix scan' (position + eaten.length) rest)
    (same : ∀ more, more.head? = rest.head? ∨ (scan' more).diagnostics = [] →
      scan (eaten ++ more) = scan' more) :
    MarksPrefix scan position (eaten ++ rest) := by
  intro d ds hd
  rw [same rest (.inl rfl)] at hd
  obtain ⟨seen, rest', rfl, pos, head, ⟨w, hw⟩, stuck⟩ := h d ds hd
  refine ⟨eaten ++ seen, rest', by simp, by simp; omega, head, ⟨w, ?_⟩, ?_⟩
  · rw [List.append_assoc, same _ (.inr hw)]
    exact hw
  · intro ne more
    have first : (seen ++ d.evidence rest' ++ more).head? = (seen ++ rest').head? := by
      obtain ⟨c, tail, rfl⟩ := List.exists_cons_of_ne_nil ne
      cases seen <;> simp_all
    rw [List.append_assoc, List.append_assoc, ← List.append_assoc seen, same _ (.inl first)]
    exact stuck ne more

theorem here (completes : ∃ w, (scan w).diagnostics = [])
    (first : ∀ d ds, (scan text).diagnostics = d :: ds →
      d.position = position ∧ (d.evidence text).head? = text.head? ∧
        (text ≠ [] → ∀ more, (scan (d.evidence text ++ more)).diagnostics ≠ [])) :
    MarksPrefix scan position text := by
  intro d ds hd
  obtain ⟨pos, head, stuck⟩ := first d ds hd
  exact ⟨[], text, rfl, pos, head, completes, stuck⟩

end MarksPrefix

/-! Every place of a scan can be brought to an end. -/

theorem diagnostics_ofOperator_completion (limit position opened : Nat) :
    (ofOperator limit position opened (List.replicate opened ')')).diagnostics = [] := by
  induction opened generalizing position with
  | zero =>
    rw [ofOperator_stop (by simp) (by simp)]
    rfl
  | succ k ih => rw [List.replicate_succ, ofOperator_close, ih]

theorem diagnostics_ofOperand_completion (limit position opened : Nat) :
    (ofOperand limit position opened (['0'] ++ List.replicate opened ')')).diagnostics = [] := by
  have ends : ∀ c ∈ (List.replicate opened ')').head?, ¬ c.isDigit := by
    cases opened <;> simp [List.replicate_succ]
  rw [ofOperand_digits (by simp) (by simp) ends, if_neg (by decide),
    diagnostics_ofOperator_completion]

/-! Where the scan stops, it reports whatever follows. -/

theorem diagnostics_stop_eq_nil_iff :
    (stop position opened rest).diagnostics = [] ↔ opened = 0 ∧ rest = [] := by
  by_cases h : rest = [] <;> simp [stop, h]

theorem of_mem_diagnostics_stop (h : d ∈ (stop position opened rest).diagnostics) :
    d.position = position ∧ ∀ text, d.evidence text = text.take 1 := by
  simp only [stop, List.mem_append, List.mem_replicate] at h
  rcases h with ⟨-, rfl⟩ | h
  · exact ⟨rfl, fun _ => rfl⟩
  · split at h
    · simp at h
    · rw [List.mem_singleton.1 h]
      exact ⟨rfl, fun _ => rfl⟩

theorem not_isDigit_head?_of_ofOperator
    (h : (ofOperator limit position opened text).diagnostics = []) :
    ∀ c ∈ text.head?, ¬ c.isDigit := by
  intro c hc digit
  have no_operator : ∀ op : Operator, text.head? ≠ some op.symbol := by
    intro op hop
    rw [hop] at hc
    cases hc
    revert digit
    cases op <;> decide
  have no_close : text.head? = some ')' → opened = 0 := by
    intro hclose
    rw [hclose] at hc
    cases hc
    exact absurd digit (by decide)
  rw [ofOperator_stop no_operator no_close, diagnostics_stop_eq_nil_iff] at h
  rw [h.2] at hc
  cases hc

theorem exists_digits_append (text : List Char) : ∃ digits rest, text = digits ++ rest ∧
    (∀ c ∈ digits, c.isDigit) ∧ ∀ c ∈ rest.head?, ¬ c.isDigit :=
  ⟨text.takeWhile Char.isDigit, text.dropWhile Char.isDigit, List.takeWhile_append_dropWhile.symm,
    fun _ h => List.mem_takeWhile_imp h, Reader.not_isDigit_head?_dropWhile text⟩

/-! One step of the scan from each of its places. -/

theorem diagnostics_ofOperand_overflow (limit position opened : Nat) (nonempty : digits ≠ [])
    (digit : ∀ c ∈ digits, c.isDigit) (large : Decimal.toInt64? digits = none) (more : List Char) :
    ∃ ds, (ofOperand limit position opened (digits ++ more)).diagnostics =
      .invalidInteger .overflow position :: ds := by
  obtain ⟨digits', rest, rfl, digit', ends⟩ := exists_digits_append more
  rw [← List.append_assoc, ofOperand_digits (by simp [nonempty]) (by grind) ends,
    if_pos (Decimal.toInt64?_append_eq_none large digits')]
  exact ⟨_, rfl⟩

theorem marksPrefix_ofOperand
    (shorter : ∀ rest : List Char, rest.length < text.length → ∀ position opened,
      MarksPrefix (ofOperand limit position opened) position rest ∧
        MarksPrefix (ofOperator limit position opened) position rest) :
    MarksPrefix (ofOperand limit position opened) position text := by
  have completes := diagnostics_ofOperand_completion limit position opened
  obtain ⟨digits, rest, rfl, digit, ends⟩ := exists_digits_append text
  by_cases nonempty : digits = []
  · subst nonempty
    rw [List.nil_append]
    by_cases group : rest.head? = some '('
    · obtain ⟨rest, rfl⟩ := List.head?_eq_some_iff.1 group
      rcases Nat.lt_or_ge opened limit with room | deep
      · have inner := (shorter rest (by simp) (position + 1) (opened + 1)).1
        exact .step ['('] inner fun more _ => ofOperand_open room
      · refine .here ⟨_, completes⟩ ?_
        intro d ds hd
        rw [ofOperand_tooDeep deep] at hd
        obtain ⟨rfl, -⟩ := List.cons.inj hd
        refine ⟨rfl, rfl, ?_⟩
        intro _ more
        have reports : ofOperand limit position opened ('(' :: more) = _ := ofOperand_tooDeep deep
        exact reports ▸ List.cons_ne_nil _ _
    · refine .here ⟨_, completes⟩ ?_
      intro d ds hd
      rw [ofOperand_unexpected ends group] at hd
      obtain ⟨rfl, -⟩ := List.cons.inj hd
      refine ⟨rfl, List.head?_take, ?_⟩
      intro ne more
      obtain ⟨c, tail, rfl⟩ := List.exists_cons_of_ne_nil ne
      have reports : ofOperand limit position opened (c :: more) = _ :=
        ofOperand_unexpected ends group
      exact reports ▸ List.cons_ne_nil _ _
  · cases value : Decimal.toInt64? digits with
    | none =>
      refine .here ⟨_, completes⟩ ?_
      intro d ds hd
      have reports := diagnostics_ofOperand_overflow limit position opened nonempty digit value
      obtain ⟨_, first⟩ := reports rest
      obtain ⟨rfl, -⟩ := List.cons.inj (hd.symm.trans first)
      have evidence : Diagnostic.evidence (.invalidInteger .overflow position) (digits ++ rest) =
          digits := Decimal.takeWhile_isDigit_append digit ends
      rw [evidence]
      refine ⟨rfl, (List.head?_append_of_ne_nil _ nonempty).symm, ?_⟩
      intro _ more
      obtain ⟨_, first⟩ := reports more
      exact first ▸ List.cons_ne_nil _ _
    | some v =>
      have shorter_rest : rest.length < (digits ++ rest).length := by
        simpa using List.length_pos_iff.2 nonempty
      have behind := (shorter rest shorter_rest (position + digits.length) opened).2
      refine .step digits behind ?_
      intro more cond
      -- what follows the digits must not be a digit itself
      have ends_more : ∀ c ∈ more.head?, ¬ c.isDigit := by
        rcases cond with same | clean
        · rwa [same]
        · exact not_isDigit_head?_of_ofOperator clean
      rw [ofOperand_digits nonempty digit ends_more, if_neg (by simp [value])]

theorem marksPrefix_ofOperator
    (shorter : ∀ rest : List Char, rest.length < text.length → ∀ position opened,
      MarksPrefix (ofOperand limit position opened) position rest ∧
        MarksPrefix (ofOperator limit position opened) position rest) :
    MarksPrefix (ofOperator limit position opened) position text := by
  by_cases operator : ∃ op : Operator, text.head? = some op.symbol
  · obtain ⟨op, hop⟩ := operator
    obtain ⟨rest, rfl⟩ := List.head?_eq_some_iff.1 hop
    have behind := (shorter rest (by simp) (position + 1) opened).1
    exact .step [op.symbol] behind fun more _ => ofOperator_operator op
  by_cases close : text.head? = some ')' ∧ 0 < opened
  · obtain ⟨⟨rest, rfl⟩, k, rfl⟩ : (∃ rest, text = ')' :: rest) ∧ ∃ k, opened = k + 1 :=
      ⟨List.head?_eq_some_iff.1 close.1, Nat.exists_eq_succ_of_ne_zero (Nat.ne_of_gt close.2)⟩
    have behind := (shorter rest (by simp) (position + 1) k).2
    exact .step [')'] behind fun more _ => ofOperator_close
  -- the scan stops here, whatever follows the next character
  have stops : ∀ more : List Char, more.head? = text.head? →
      ofOperator limit position opened more = stop position opened more := by
    intro more same
    apply ofOperator_stop (fun op hop => operator ⟨op, same ▸ hop⟩)
    intro hclose
    by_contra opened_pos
    exact close ⟨same ▸ hclose, Nat.pos_of_ne_zero opened_pos⟩
  refine .here ⟨_, diagnostics_ofOperator_completion limit position opened⟩ ?_
  intro d ds hd
  rw [stops text rfl] at hd
  obtain ⟨pos, evidence⟩ := of_mem_diagnostics_stop (hd ▸ List.mem_cons_self)
  refine ⟨pos, evidence text ▸ List.head?_take, ?_⟩
  intro ne more
  obtain ⟨c, tail, rfl⟩ := List.exists_cons_of_ne_nil ne
  rw [evidence, stops _ (by simp), Ne, diagnostics_stop_eq_nil_iff]
  simp

theorem marksPrefix (limit : Nat) (text : List Char) : ∀ position opened,
    MarksPrefix (ofOperand limit position opened) position text ∧
      MarksPrefix (ofOperator limit position opened) position text := by
  induction size : text.length using Nat.strongRecOn generalizing text with
  | ind n ih =>
    subst size
    intro position opened
    have shorter := fun rest (h : rest.length < text.length) => ih _ h rest rfl
    exact ⟨marksPrefix_ofOperand shorter, marksPrefix_ofOperator shorter⟩

end Findings

theorem isClean_iff_scan {text : String} {limit : Nat} :
    (parse text limit).IsClean ↔ (Findings.ofText limit text.toList).diagnostics = [] := by
  rw [isClean_iff, findings_parse]

/-- The first diagnostic, which is what a strict reading fails with, stands at the end of the
longest beginning of the text that can still become a sentence, or at the literal behind it that
is too large. -/
theorem first_diagnostic_marks_prefix {text : String} {limit : Nat} {d : Diagnostic}
    (h : (parse text limit).diagnostics.head? = some d) :
    (parse text limit).strict = .error (.rejected d) ∧ d.position ≤ text.length ∧
      (∃ w : String, (parse (String.ofList (text.toList.take d.position) ++ w) limit).IsClean) ∧
      (d.position < text.length → ∀ t : String,
        text.toList.take (d.reach text.toList) <+: t.toList → ¬ (parse t limit).IsClean) ∧
      ¬ (parse text limit).IsClean := by
  obtain ⟨ds, hd⟩ := List.head?_eq_some_iff.1 h
  have scan : (Findings.ofText limit text.toList).diagnostics = d :: ds := by
    rw [findings_parse, hd]
  obtain ⟨seen, rest, split, pos, -, ⟨w, hw⟩, stuck⟩ :=
    (Findings.marksPrefix limit text.toList 0 0).1 d ds scan
  rw [Nat.zero_add] at pos
  have length : text.length = seen.length + rest.length := by
    rw [← String.length_toList, split, List.length_append]
  have before : text.toList.take d.position = seen := by rw [split, pos, List.take_left]
  have behind : text.toList.drop d.position = rest := by rw [split, pos, List.drop_left]
  refine ⟨?_, by omega, ⟨String.ofList w, ?_⟩, ?_, ?_⟩
  · rw [Outcome.strict, hd]
  · rw [isClean_iff_scan, before, String.toList_append, String.toList_ofList, String.toList_ofList]
    exact hw
  · intro inside t ht
    rw [Diagnostic.take_reach, before, behind] at ht
    obtain ⟨more, hmore⟩ := ht
    rw [isClean_iff_scan, ← hmore]
    exact stuck (List.ne_nil_of_length_pos (by omega)) more
  · rw [isClean_iff, hd]
    exact List.cons_ne_nil _ _

/-- The literal stands in an open group, and there is another fault behind it. -/
theorem overflow_marks_prefix :
    (parse "(1+99999999999999999999*x" 1).diagnostics.head? = some (.invalidInteger .overflow 3) ∧
      (∃ w : String, (parse ("(1+" ++ w) 1).IsClean) ∧
      ∀ t : String, "(1+99999999999999999999".toList <+: t.toList → ¬ (parse t 1).IsClean := by
  have first : (parse "(1+99999999999999999999*x" 1).diagnostics.head? =
      some (.invalidInteger .overflow 3) := by decide +kernel
  obtain ⟨-, -, before, beyond, -⟩ := first_diagnostic_marks_prefix first
  exact ⟨first, before, beyond (by decide)⟩

end ArithExpr
