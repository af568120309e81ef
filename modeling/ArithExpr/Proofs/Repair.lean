import ArithExpr.Proofs.Nesting
import ArithExpr.Proofs.Salvage

/-! Closing what was left open. Groups are only ever found unclosed at the place where the reading
stops, so the text that was taken, with a closing parenthesis for each of them, is read from end to
end, to the same tree and with the diagnostics that do not speak of the end. -/

namespace ArithExpr

/-- What becomes of a diagnostic once the text goes on with `next` at the place `last` and every
group is closed there. -/
def Diagnostic.mended (last : Nat) (next : Option Char) : Diagnostic → Option Diagnostic
  | unclosedGroup _ | trailingText .. => none
  | unexpectedCharacter found position =>
    some (.unexpectedCharacter (if position = last then next else found) position)
  | d => some d

namespace Outcome

/-- How many groups were left unclosed. -/
def unclosed (o : Outcome) : Nat := o.diagnostics.countP Diagnostic.isUnclosedGroup

/-- What was read of the text, with the closing parentheses that it lacks. -/
def repaired (o : Outcome) (text : String) : String :=
  String.ofList (text.toList.take o.consumed ++ List.replicate o.unclosed ')')

end Outcome

variable {part : Part} {tree : Option Expr} {text : List Char} {limit opened position last : Nat}
  {next found : Option Char} {ds : List Diagnostic}

/-! Closing parentheses end every part. -/

theorem eq_close_of_mem_head? {n : Nat} : ∀ c ∈ (List.replicate n ')').head?, c = ')' := by
  cases n <;> simp [List.replicate_succ]

theorem not_isDigit_closers (n : Nat) : ∀ c ∈ (List.replicate n ')').head?, ¬ c.isDigit := by
  intro c hc
  rw [eq_close_of_mem_head? c hc]
  decide

theorem closers_ne_open (n : Nat) : (List.replicate n ')').head? ≠ some '(' := by
  intro h
  exact absurd (eq_close_of_mem_head? _ h) (by decide)

theorem Part.endsAt_closers (part : Part) (n : Nat) :
    part.EndsAt (List.replicate n ')').head? := by
  intro op h
  have close := eq_close_of_mem_head? _ h
  exact absurd close op.symbol_plain.2

/-! The diagnostics of a part that the reading went beyond stay as they are. -/

theorem Salvages.filterMap_mended (h : Salvages limit part opened position text next tree ds)
    (goesOn : GoesOn next) (before : position + text.length < last) :
    ds.filterMap (Diagnostic.mended last found) = ds := by
  induction h with
  | literal | overflow | tooDeep => rfl
  | @unexpected _ position =>
    have elsewhere : position ≠ last := Nat.ne_of_lt before
    simp [Diagnostic.mended, elsewhere]
  | closed _ _ ih =>
    simp only [List.length_append, List.length_cons] at before
    exact ih (.inl rfl) (by omega)
  | unclosed _ _ ends no_close _ => exact absurd goesOn (ends.not_goesOn no_close)
  | operand _ _ ih => exact ih goesOn before
  | @chain op _ _ _ _ _ _ _ _ _ _ _ _ ih_first ih_last =>
    simp only [List.length_append, List.length_cons] at before
    rw [List.filterMap_append, ih_first (.inr ⟨op, rfl⟩) (by omega), ih_last goesOn (by omega)]

/-- With a closing parenthesis for each group left open, and `more` for the groups around, the text
comes to the same tree. -/
theorem Salvages.close (h : Salvages limit part opened position text next tree ds) (more : Nat) :
    Salvages limit part opened position
      (text ++ List.replicate (ds.countP Diagnostic.isUnclosedGroup) ')')
      (List.replicate more ')').head? tree
      (ds.filterMap (Diagnostic.mended (position + text.length)
        (List.replicate (ds.countP Diagnostic.isUnclosedGroup + more) ')').head?)) := by
  induction h generalizing more with
  | literal nonempty digit _ value =>
    simpa using .literal nonempty digit (not_isDigit_closers more) value
  | overflow nonempty digit _ large =>
    simpa [Diagnostic.isUnclosedGroup, Diagnostic.mended] using
      .overflow nonempty digit (not_isDigit_closers more) large
  | unexpected =>
    simpa [Diagnostic.isUnclosedGroup, Diagnostic.mended] using
      .unexpected (not_isDigit_closers more) (closers_ne_open more)
  | tooDeep deep =>
    simpa [Diagnostic.isUnclosedGroup, Diagnostic.mended] using .tooDeep deep
  | @closed _ position text _ _ ds room inner _ =>
    have before : position + 1 + text.length < position + ('(' :: text ++ [')']).length := by
      simp only [List.length_append, List.length_cons]
      omega
    rw [inner.countP_unclosed_of_goesOn (.inl rfl), inner.filterMap_mended (.inl rfl) before]
    simpa using .closed room inner
  | @unclosed _ _ text _ _ ds room _ _ _ ih =>
    -- the first parenthesis after those of the inner groups closes this one
    have whole : Salvages limit .factor _ _ _ (List.replicate more ')').head? _ _ :=
      .closed room (ih (more + 1))
    simpa [Diagnostic.isUnclosedGroup, Diagnostic.mended, List.filterMap_cons, List.replicate_succ',
      Nat.add_assoc, Nat.add_comm 1] using whole
  | operand _ _ ih => exact .operand (ih more) (Part.endsAt_closers _ more)
  | @chain op _ position left right _ _ _ ds es first _ _ _ ih_last =>
    have goesOn : GoesOn (some op.symbol) := .inr ⟨op, rfl⟩
    have place : position + left.length + 1 + right.length =
        position + (left ++ op.symbol :: right).length := by
      simp only [List.length_append, List.length_cons]
      omega
    have chain := Salvages.chain first (ih_last more) (Part.endsAt_closers _ more)
    rw [place] at chain
    rw [List.countP_append, first.countP_unclosed_of_goesOn goesOn, Nat.zero_add,
      List.filterMap_append, first.filterMap_mended goesOn (by simp)]
    simpa using chain

theorem Diagnostic.countP_leftover (position : Nat) (rest : List Char) :
    (leftover position rest).countP isUnclosedGroup = 0 :=
  List.countP_eq_zero.2 fun d hd => by
    rw [eq_of_mem_leftover hd]
    exact Bool.false_ne_true

theorem Diagnostic.filterMap_leftover (position : Nat) (rest : List Char) :
    (leftover position rest).filterMap (mended last found) = [] :=
  List.filterMap_eq_nil_iff.2 fun d hd => by
    rw [eq_of_mem_leftover hd]
    rfl

theorem Diagnostic.not_unclosed_of_mem_mended {d : Diagnostic}
    (h : d ∈ ds.filterMap (mended last found)) : ¬ d.isUnclosedGroup := by
  obtain ⟨d', -, hd⟩ := List.mem_filterMap.1 h
  cases d' <;> cases hd <;> simp [isUnclosedGroup]

theorem salvages_repaired (text : String) (limit : Nat) :
    let o := parse text limit
    Salvages limit .expression 0 0 (o.repaired text).toList none o.root
      (o.diagnostics.filterMap
        (Diagnostic.mended o.consumed (if o.unclosed = 0 then none else some ')'))) := by
  obtain ⟨taken, more, tree, ds, rfl, salvages, ends⟩ := exists_salvages_parse text limit
  intro o
  have outcome : o = ⟨tree, ds ++ Diagnostic.leftover taken.length more, taken.length⟩ :=
    parse_eq_of_salvages salvages ends
  have root : o.root = tree := congrArg Outcome.root outcome
  have consumed : o.consumed = taken.length := congrArg Outcome.consumed outcome
  have unclosed : o.unclosed = ds.countP Diagnostic.isUnclosedGroup := by
    rw [outcome, Outcome.unclosed, List.countP_append, Diagnostic.countP_leftover, Nat.add_zero]
  have mended (found : Option Char) : o.diagnostics.filterMap (Diagnostic.mended o.consumed found) =
      ds.filterMap (Diagnostic.mended taken.length found) := by
    rw [outcome, List.filterMap_append, Diagnostic.filterMap_leftover, List.append_nil]
  have repaired : (o.repaired (String.ofList (taken ++ more))).toList =
      taken ++ List.replicate o.unclosed ')' := by
    rw [Outcome.repaired, String.toList_ofList, String.toList_ofList, consumed, List.take_left]
  have closed := salvages.close 0
  rw [← unclosed, Nat.add_zero, Nat.zero_add] at closed
  rw [repaired, root, mended, ← List.head?_replicate]
  exact closed

/-- A repaired text is read from end to end, and comes to the same tree. Of the diagnostics only
those of the unclosed groups and of the text behind are gone, and where an operand was missing at
the very end, the character found there is another one. -/
theorem parse_repaired (text : String) (limit : Nat) :
    let o := parse text limit
    parse (o.repaired text) limit =
      ⟨o.root,
        o.diagnostics.filterMap
          (Diagnostic.mended o.consumed (if o.unclosed = 0 then none else some ')')),
        (o.repaired text).length⟩ := by
  intro o
  have ends : Part.expression.EndsAt ([] : List Char).head? := Part.endsAt_closers _ 0
  have whole := parse_eq_of_salvages (salvages_repaired text limit) ends
  rw [List.append_nil, String.ofList_toList] at whole
  rw [whole]
  simp [Diagnostic.leftover, String.length_toList, o]

end ArithExpr
