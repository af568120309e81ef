import ArithExpr.Proofs.Nesting
import ArithExpr.Proofs.Reads

/-! Reading accepts exactly the sentences. A reading that reports nothing has a derivation behind it
and takes just the text of that derivation (`Reads.exists_spelled`); what a derivation spells can be
read, wherever it stands, if nothing behind it would carry it on (`Spells.reads`). -/

namespace ArithExpr

/-- What stands behind a part does not carry it on: no digit, and no operator that binds tighter. -/
def Part.EndsBefore (part : Part) (more : List Char) : Prop :=
  (∀ c ∈ more.head?, ¬ c.isDigit) ∧
    ∀ op : Operator, more.head? = some op.symbol → op.precedence ≤ part.precedence

namespace Part

variable {part : Part} {level : Level} {s : Reader} {more : List Char}

theorem endsBefore_nil : part.EndsBefore [] := ⟨by simp, by simp⟩

theorem endsBefore_close : part.EndsBefore (')' :: more) := by
  refine ⟨by simp, ?_⟩
  intro op next
  cases op <;> cases next

theorem endsBefore_operator {op : Operator} (h : op.precedence ≤ part.precedence) :
    part.EndsBefore (op.symbol :: more) := by
  refine ⟨?_, ?_⟩
  · rintro c ⟨⟩
    cases op <;> decide
  · intro op' next
    rw [← Operator.symbol_injective (Option.some.inj next)]
    exact h

theorem EndsBefore.operand (h : (phrase level).EndsBefore more) :
    level.operand.EndsBefore more := by
  refine ⟨h.1, ?_⟩
  intro op next
  have := h.2 op next
  rw [precedence_operand]
  exact Nat.le_succ_of_le this

theorem EndsBefore.isOver_operand (h : (phrase level).EndsBefore s.rest) :
    level.operand.IsOver s :=
  isOver_operand_iff.2 h.2

end Part

/-- From `s` to `t` a reader takes just this text, a sentence that nests within the limit. -/
structure Spelled (part : Part) (s t : Reader) (text : List Char) (e : Expr) : Prop where
  after : t = s.skip text.length
  rest : s.rest = text ++ t.rest
  spells : Spells part text e
  nested : nesting s.depth text ≤ s.limit

variable {part : Part} {s t u : Reader} {tree : Option Expr} {e l r : Expr}
  {text left right more : List Char}

namespace Spelled

theorem literal {v : Int64} (digit : s.digits ≠ []) (value : Decimal.toInt64? s.digits = some v)
    (room : s.depth ≤ s.limit) :
    Spelled .factor s (s.skip s.digits.length) s.digits (.literal v) where
  after := rfl
  rest := Reader.rest_eq_digits_append
  spells := .literal digit Reader.isDigit_of_mem_digits value
  nested := by
    rwa [nesting_eq_of_plain fun c hc => plain_of_isDigit (Reader.isDigit_of_mem_digits c hc)]

theorem closed (opens : s.next? = some '(')
    (inner : Spelled .expression (s.skip 1).openGroup t text e) (closes : t.next? = some ')') :
    Spelled .factor s (t.closeGroup.skip 1) ('(' :: text ++ [')']) e where
  after := by
    rw [inner.after, Reader.close_skip_open]
    simp [Nat.add_comm]
  rest :=
    calc s.rest
        = '(' :: (s.skip 1).openGroup.rest := Reader.rest_of_next? opens
      _ = '(' :: (text ++ t.rest) := by rw [inner.rest]
      _ = '(' :: (text ++ ')' :: t.rest.drop 1) := by rw [← Reader.rest_of_next? closes]
      _ = '(' :: text ++ [')'] ++ (t.closeGroup.skip 1).rest := by simp
  spells := .group inner.spells
  nested := by
    rw [inner.spells.balanced.nesting_parens]
    exact inner.nested

theorem chain {op : Operator} (first : Spelled (.phrase op.level) s t left l)
    (next : t.next? = some op.symbol) (last : Spelled op.level.operand (t.skip 1) u right r) :
    Spelled (.phrase op.level) s u (left ++ op.symbol :: right) (.binary op l r) where
  after := by
    rw [last.after, first.after]
    simp [Nat.add_assoc, Nat.add_comm 1]
  rest :=
    calc s.rest
        = left ++ t.rest := first.rest
      _ = left ++ op.symbol :: (t.skip 1).rest := by rw [Reader.rest_of_next? next]; rfl
      _ = left ++ op.symbol :: (right ++ u.rest) := by rw [last.rest]
      _ = left ++ op.symbol :: right ++ u.rest := by simp
  spells := .chain first.spells last.spells
  nested := by
    have nested_left := first.nested
    have nested_right := last.nested
    rw [first.after] at nested_right
    rw [first.spells.balanced.nesting_chain]
    exact Nat.max_le.2 ⟨nested_left, nested_right⟩

end Spelled

/-- A reading that reports nothing reads a sentence and gives its tree. -/
theorem Reads.exists_spelled (h : Reads part s tree t) (clean : t.found = s.found)
    (room : s.depth ≤ s.limit) : ∃ e text, tree = some e ∧ Spelled part s t text e := by
  induction h with
  | literal digit value => exact ⟨_, _, rfl, .literal digit value room⟩
  | overflow | unexpected | tooDeep => exact absurd clean (List.cons_ne_self _ _)
  | closed opens below _ closes ih =>
    obtain ⟨e, text, rfl, inner⟩ := ih clean (Nat.succ_le_of_lt below)
    exact ⟨e, _, rfl, .closed opens inner closes⟩
  | unclosed _ _ inner _ _ _ =>
    have longer := inner.found_suffix.length_le
    have same := congrArg List.length clean
    simp only [Reader.found_report, Reader.found_closeGroup, Reader.found_openGroup,
      Reader.found_skip, List.length_cons] at same longer
    omega
  | operand _ _ ih =>
    obtain ⟨e, text, rfl, only⟩ := ih clean room
    exact ⟨e, text, rfl, only.after, only.rest, .operand only.spells, only.nested⟩
  | chain first next last _ ih_first ih_last =>
    -- what is found only grows, so neither half of the reading can have reported anything
    have shorter := last.found_suffix.length_le
    rw [clean] at shorter
    have unchanged := (first.found_suffix.eq_of_length_le shorter).symm
    obtain ⟨l, left, rfl, read_left⟩ := ih_first unchanged room
    obtain ⟨r, right, rfl, read_right⟩ := ih_last (clean.trans unchanged.symm)
      (by simpa [first.depth_eq, first.limit_eq] using room)
    exact ⟨.binary _ l r, _, rfl, read_left.chain next read_right⟩

/-- A sentence can be read wherever it stands, and nothing is reported. -/
theorem Spells.reads (h : Spells part text e) (rest : s.rest = text ++ more)
    (ends : part.EndsBefore more) (room : nesting s.depth text ≤ s.limit) :
    Reads part s (some e) (s.skip text.length) := by
  induction h generalizing s more with
  | @literal digits v nonempty digit value =>
    have same := Reader.digits_of_eq_append rest digit ends.1
    rw [← same] at nonempty value ⊢
    exact .literal nonempty value
  | @group text e inner ih =>
    rw [inner.balanced.nesting_parens] at room
    have opened := le_nesting (s.depth + 1) text
    have behind : (s.skip 1).openGroup.rest = text ++ ')' :: more := by simp [rest]
    have read := ih behind Part.endsBefore_close room
    have closed := Reads.closed (by simp [Reader.next?, rest]) (by omega) read
      (by simp [Reader.next?, rest])
    rw [Reader.close_skip_open] at closed
    simpa [Nat.add_comm, Nat.add_assoc] using closed
  | operand _ ih =>
    have behind := Reader.rest_skip_of_eq_append rest
    exact .operand (ih rest ends.operand room) (Part.EndsBefore.isOver_operand (by rwa [behind]))
  | @chain op left right l r first last ih_first ih_last =>
    rw [first.balanced.nesting_chain] at room
    have split : s.rest = left ++ op.symbol :: (right ++ more) := by simp [rest]
    have behind_left := Reader.rest_skip_of_eq_append split
    have next : (s.skip left.length).next? = some op.symbol := by
      unfold Reader.next?
      rw [behind_left]
      rfl
    have behind_op : ((s.skip left.length).skip 1).rest = right ++ more := by
      rw [Reader.rest_skip, behind_left]
      rfl
    have behind_right := Reader.rest_skip_of_eq_append behind_op
    have read_first := ih_first split (Part.endsBefore_operator (Nat.le_refl _)) (by omega)
    have read_last := ih_last behind_op ends.operand
      (by simp only [Reader.depth_skip, Reader.limit_skip]; omega)
    have chain := read_first.chain next read_last
      (Part.EndsBefore.isOver_operand (by rwa [behind_right]))
    simpa [Expr.combine?, Nat.add_assoc, Nat.add_comm 1] using chain

/-! A phrase is one operand and any number of links, and its tree folds them to the left. -/

/-- An operator of a chain and the operand behind it. -/
structure Link where
  op : Operator
  text : List Char
  tree : Expr

theorem Spells.chain_links {level : Level} {links : List Link} (h : Spells (.phrase level) text e)
    (spelled : ∀ k ∈ links, k.op.level = level ∧ Spells level.operand k.text k.tree) :
    Spells (.phrase level) (text ++ links.flatMap fun k => k.op.symbol :: k.text)
      (links.foldl (fun l k => .binary k.op l k.tree) e) := by
  induction links generalizing text e with
  | nil => simpa using h
  | cons k rest ih =>
    obtain ⟨rfl, last⟩ := spelled k List.mem_cons_self
    have longer := ih (h.chain last) fun k hk => spelled k (List.mem_cons_of_mem _ hk)
    simpa using longer

theorem spells_phrase_iff {level : Level} : Spells (.phrase level) text e ↔
    ∃ (first : List Char) (l : Expr) (links : List Link), Spells level.operand first l ∧
      (∀ k ∈ links, k.op.level = level ∧ Spells level.operand k.text k.tree) ∧
      text = first ++ links.flatMap (fun k => k.op.symbol :: k.text) ∧
      e = links.foldl (fun l k => .binary k.op l k.tree) l := by
  refine ⟨?_, ?_⟩
  · intro h
    -- the induction needs the part as a variable
    generalize whole : Part.phrase level = phrase at h
    induction h with
    | literal | group => cases whole
    | operand only _ =>
      cases whole
      exact ⟨_, _, [], only, by simp, by simp, rfl⟩
    | @chain op left right l r _ last ih_first _ =>
      cases whole
      obtain ⟨first, l, links, head, spelled, rfl, rfl⟩ := ih_first rfl
      refine ⟨first, l, links ++ [⟨op, right, r⟩], head, ?_, by simp, by simp⟩
      intro k hk
      rcases List.mem_append.1 hk with hk | hk
      · exact spelled k hk
      · rw [List.mem_singleton.1 hk]
        exact ⟨rfl, last⟩
  · rintro ⟨first, l, links, head, spelled, rfl, rfl⟩
    exact (Spells.operand head).chain_links spelled

/-! Whole texts. -/

theorem Part.isOver_of_rest_nil (h : s.rest = []) : part.IsOver s := by
  intro op next
  unfold Reader.next? at next
  rw [h] at next
  cases next

theorem parse_of_spells {text : String} {limit : Nat} (h : Spells .expression text.toList e)
    (room : nesting 0 text.toList ≤ limit) : parse text limit = ⟨some e, [], text.length⟩ := by
  have read := h.reads (s := (Reader.ofChars text.toList limit).start) (List.append_nil _).symm
    Part.endsBefore_nil room
  have at_end : ((Reader.ofChars text.toList limit).start.skip text.toList.length).rest = [] :=
    List.drop_length
  unfold parse
  rw [Reader.outcome_of_reads read (Part.isOver_of_rest_nil at_end), Reader.reportRest,
    if_pos at_end]
  simp [Reader.diagnostics, Reader.ofChars, String.length_toList]

/-- No text spells two trees, as what is read of it is one of them. -/
theorem Spells.tree_unique (h : Spells .expression text l) (h' : Spells .expression text r) :
    l = r := by
  rw [← String.toList_ofList (l := text)] at h h'
  have read := parse_of_spells h (Nat.le_refl _)
  rw [parse_of_spells h' (Nat.le_refl _)] at read
  exact (Option.some.inj (congrArg Outcome.root read)).symm

/-- A text in which nothing is found wrong is a sentence. -/
theorem exists_spells_of_diagnostics_eq_nil {text : String} {limit : Nat}
    (h : (parse text limit).diagnostics = []) :
    ∃ e, Spells .expression text.toList e ∧ nesting 0 text.toList ≤ limit := by
  obtain ⟨tree, t, read, -, outcome⟩ := (Reader.ofChars text.toList limit).exists_reads_outcome
  unfold parse at h
  rw [outcome] at h
  obtain ⟨at_end, clean⟩ := Reader.diagnostics_reportRest_eq_nil_iff.1 h
  obtain ⟨e, sentence, -, whole⟩ := read.exists_spelled clean (Nat.zero_le _)
  have same : text.toList = sentence := by
    have rest := whole.rest
    rwa [at_end, List.append_nil] at rest
  exact ⟨e, same ▸ whole.spells, same ▸ whole.nested⟩

theorem isClean_iff {text : String} {limit : Nat} : (parse text limit).IsClean ↔
    (parse text limit).diagnostics = [] := by
  refine ⟨And.right, ?_⟩
  intro h
  obtain ⟨e, spells, room⟩ := exists_spells_of_diagnostics_eq_nil h
  simp [Outcome.IsClean, parse_of_spells spells room]

/-- Texts read without fault are exactly the sentences that nest within the limit, and what such a
text is read as is the one tree that it spells. -/
theorem parse_faultless_iff (text : String) (limit : Nat) :
    ((parse text limit).IsClean ↔
        ∃ e, Spells .expression text.toList e ∧ nesting 0 text.toList ≤ limit) ∧
      ∀ e, parse text limit = ⟨some e, [], text.length⟩ ↔
        Spells .expression text.toList e ∧ nesting 0 text.toList ≤ limit := by
  refine ⟨?_, ?_⟩
  · refine ⟨fun h => exists_spells_of_diagnostics_eq_nil h.2, ?_⟩
    rintro ⟨e, spells, room⟩
    simp [Outcome.IsClean, parse_of_spells spells room]
  · intro e
    refine ⟨?_, fun h => parse_of_spells h.1 h.2⟩
    intro h
    have clean := congrArg Outcome.diagnostics h
    obtain ⟨e', spells, room⟩ := exists_spells_of_diagnostics_eq_nil clean
    have root := congrArg Outcome.root (h.symm.trans (parse_of_spells spells room))
    cases root
    exact ⟨spells, room⟩

end ArithExpr
