import ArithExpr.Proofs.Conservation

/-! No two trees have the same text, negative literals or not. A minus sign is a sign where an
operand is due and an operator where none is, so a single pass from left to right can put a zero
for every literal, with its sign (`blank_chars`). What comes out is the text of the tree's shape,
which reads back as the shape. And trees of one shape and one text can be compared from left to
right, literal by literal (`eq_of_shape_eq`). -/

namespace ArithExpr

/-- A text with a zero for every literal in it. Where an operand is due, a minus sign begins a
literal, and what comes behind a literal and is no digit is an operator or closes a group. -/
def blank (due : Bool) : List Char → List Char
  | [] => []
  | c :: rest =>
    if due then
      if c = '-' ∨ c.isDigit then '0' :: blank false rest else c :: blank true rest
    else if c.isDigit then blank false rest
    else c :: blank (Operator.ofSymbol? c).isSome rest

variable {text text' more more' digits : List Char} {a b e : Expr}

theorem blank_digits (digit : ∀ c ∈ digits, c.isDigit) (more : List Char) :
    blank false (digits ++ more) = blank false more := by
  induction digits with
  | nil => rfl
  | cons c rest ih =>
    rw [List.cons_append, blank, if_neg Bool.false_ne_true, if_pos (digit c List.mem_cons_self)]
    exact ih fun d hd => digit d (List.mem_cons_of_mem _ hd)

theorem blank_ofInt (i : Int) (more : List Char) :
    blank true (Decimal.ofInt i ++ more) = '0' :: blank false more := by
  have digit : ∀ c ∈ Nat.toDigits 10 i.natAbs, c.isDigit :=
    fun c => Decimal.isDigit_of_mem_toDigits
  by_cases negative : i < 0
  · rw [Decimal.ofInt_of_neg negative, List.cons_append, blank, if_pos rfl, if_pos (.inl rfl),
      blank_digits digit]
  · rw [Decimal.ofInt_of_nonneg (Int.not_lt.1 negative)]
    have nonempty : Nat.toDigits 10 i.natAbs ≠ [] := Nat.toDigits_ne_nil
    obtain ⟨c, rest, split⟩ := List.exists_cons_of_ne_nil nonempty
    rw [split] at digit ⊢
    rw [List.cons_append, blank, if_pos rfl, if_pos (.inr (digit c List.mem_cons_self)),
      blank_digits fun d hd => digit d (List.mem_cons_of_mem _ hd)]

theorem blank_open (more : List Char) : blank true ('(' :: more) = '(' :: blank true more := rfl

theorem blank_close (more : List Char) : blank false (')' :: more) = ')' :: blank false more := rfl

theorem blank_operator (op : Operator) (more : List Char) :
    blank false (op.symbol :: more) = op.symbol :: blank true more := by
  cases op <;> rfl

theorem blank_groupIf (inner : ∀ more, blank true (text ++ more) = text' ++ blank false more)
    (grouped : Bool) (more : List Char) :
    blank true (Expr.groupIf grouped text ++ more) =
      Expr.groupIf grouped text' ++ blank false more := by
  cases grouped with
  | false => exact inner more
  | true =>
    simp only [Expr.groupIf_true, List.cons_append, List.append_assoc, List.nil_append]
    rw [blank_open, inner, blank_close]

namespace Expr

/-- The tree with a zero for every literal. -/
def shape : Expr → Expr
  | literal _ => literal 0
  | binary op l r => binary op l.shape r.shape

@[simp] theorem precedence_shape (e : Expr) : e.shape.precedence = e.precedence := by
  cases e <;> rfl

theorem nonneg_of_mem_literals_shape (e : Expr) : ∀ v ∈ e.shape.literals, 0 ≤ v := by
  induction e with
  | literal v => simp [shape, literals]
  | binary op l r ihl ihr =>
    intro v hv
    rcases List.mem_append.1 hv with hv | hv
    · exact ihl v hv
    · exact ihr v hv

theorem blank_chars (e : Expr) (more : List Char) :
    blank true (e.chars ++ more) = e.shape.chars ++ blank false more := by
  induction e generalizing more with
  | literal v => exact blank_ofInt v.toInt more
  | binary op l r ihl ihr =>
    simp only [shape, chars, precedence_shape, List.append_assoc, List.cons_append]
    rw [blank_groupIf ihl, blank_operator, blank_groupIf ihr]

theorem shape_eq_of_chars_eq (h : a.chars = b.chars) : a.shape = b.shape := by
  have same : a.shape.chars = b.shape.chars := by
    have blanked := blank_chars a []
    rw [h, blank_chars] at blanked
    exact (List.append_cancel_right blanked).symm
  have spells := spells_chars a.nonneg_of_mem_literals_shape .expression
  have spells' := spells_chars b.nonneg_of_mem_literals_shape .expression
  rw [charsAs_expression] at spells spells'
  exact spells.tree_unique (same ▸ spells')

theorem precedence_eq_of_shape_eq (h : a.shape = b.shape) : a.precedence = b.precedence := by
  rw [← precedence_shape a, h, precedence_shape]

/-- Parentheses in the same places do not get in the way of a comparison from the left. -/
theorem groupIf_append_inj
    (inner : ∀ more more' : List Char, (∀ c ∈ more.head?, ¬ c.isDigit) →
      (∀ c ∈ more'.head?, ¬ c.isDigit) → text ++ more = text' ++ more' → a = b ∧ more = more')
    (grouped : Bool) (ends : ∀ c ∈ more.head?, ¬ c.isDigit)
    (ends' : ∀ c ∈ more'.head?, ¬ c.isDigit)
    (h : groupIf grouped text ++ more = groupIf grouped text' ++ more') : a = b ∧ more = more' := by
  cases grouped with
  | false => exact inner more more' ends ends' h
  | true =>
    simp only [groupIf_true, List.cons_append, List.append_assoc, List.nil_append] at h
    obtain ⟨same, behind⟩ := inner _ _ (by simp) (by simp) (List.cons.inj h).2
    exact ⟨same, (List.cons.inj behind).2⟩

theorem eq_of_shape_eq (shape : a.shape = b.shape) (ends : ∀ c ∈ more.head?, ¬ c.isDigit)
    (ends' : ∀ c ∈ more'.head?, ¬ c.isDigit) (h : a.chars ++ more = b.chars ++ more') :
    a = b ∧ more = more' := by
  induction a generalizing b more more' with
  | literal v =>
    cases b with
    | literal w =>
      obtain ⟨same, behind⟩ := Decimal.ofInt_append_inj ends ends' h
      exact ⟨congrArg literal (Int64.toInt_inj.1 same), behind⟩
    | binary => cases shape
  | binary op l r ihl ihr =>
    cases b with
    | literal => cases shape
    | binary op' l' r' =>
      obtain ⟨rfl, shape_l, shape_r⟩ := Expr.binary.inj shape
      have no_digit (text : List Char) : ∀ c ∈ (op.symbol :: text).head?, ¬ c.isDigit := by
        rintro c ⟨⟩
        exact op.not_isDigit_symbol
      simp only [chars, precedence_eq_of_shape_eq shape_l, precedence_eq_of_shape_eq shape_r,
        List.append_assoc, List.cons_append] at h
      obtain ⟨rfl, behind⟩ := groupIf_append_inj (fun _ _ => ihl shape_l) _
        (no_digit _) (no_digit _) h
      obtain ⟨rfl, rfl⟩ := groupIf_append_inj (fun _ _ => ihr shape_r) _ ends ends'
        (List.cons.inj behind).2
      exact ⟨rfl, rfl⟩

/-! A minus sign counts as an operator, so a text with negative literals has too few operands. -/

theorem numbers_groupIf (grouped : Bool) (text : List Char) :
    numbers (groupIf grouped text) = numbers text := by
  cases grouped with
  | false => rfl
  | true => exact numbers_parens text

theorem operators_groupIf (grouped : Bool) (text : List Char) :
    operators (groupIf grouped text) = operators text := by
  cases grouped with
  | false => rfl
  | true => exact operators_parens text

theorem operands_chars (e : Expr) :
    numbers e.chars + e.literals.countP (· < 0) = operators e.chars + 1 := by
  induction e with
  | literal v =>
    have sign : v < 0 ↔ v.toInt < 0 := Int64.lt_iff_toInt_lt
    have digit : ∀ c ∈ Nat.toDigits 10 v.toInt.natAbs, c.isDigit :=
      fun c => Decimal.isDigit_of_mem_toDigits
    have one_number := numbers_digits Nat.toDigits_ne_nil digit
    have no_operator := operators_digits digit
    rw [chars, literals, List.countP_singleton]
    by_cases negative : v.toInt < 0
    · rw [Decimal.ofInt_of_neg negative, numbers_minus, operators_minus, one_number, no_operator,
        if_pos (decide_eq_true (sign.2 negative))]
    · rw [Decimal.ofInt_of_nonneg (Int.not_lt.1 negative), one_number, no_operator,
        if_neg (by simpa using mt sign.1 negative)]
  | binary op l r ihl ihr =>
    simp only [chars, literals]
    rw [numbers_mark op.not_isDigit_symbol, operators_chain, numbers_groupIf, numbers_groupIf,
      operators_groupIf, operators_groupIf, List.countP_append]
    omega

/-- A text determines the tree that it was made of, whatever the signs of the literals, although
no text with a negative literal is read without fault. -/
theorem toString_determines_tree :
    (∀ a b : Expr, toString a = toString b → a = b) ∧
      ∀ (e : Expr) (limit : Nat), (∃ v ∈ e.literals, v < 0) →
        ¬ (parse (toString e) limit).IsClean := by
  refine ⟨?_, ?_⟩
  · intro a b h
    have same : a.chars = b.chars := by
      rw [← toList_toString, h, toList_toString]
    exact (eq_of_shape_eq (shape_eq_of_chars_eq same) (by simp) (by simp)
      (congrArg (· ++ []) same)).1
  · rintro e limit ⟨v, hv, negative⟩ clean
    have balance := operands_of_isClean clean
    rw [toList_toString, ← operands_chars] at balance
    have none_negative : e.literals.countP (· < 0) = 0 := by omega
    exact List.countP_eq_zero.1 none_negative v hv (decide_eq_true negative)

/-- Of two minus signs in a row the second one is a sign, and no other tree has this text. -/
theorem toString_determines_tree_of_two_signs :
    (∀ e : Expr, toString e = "1--2" → e = binary .sub (literal 1) (literal (-2))) ∧
      ∀ limit, ¬ (parse "1--2" limit).IsClean := by
  have text : toString (binary .sub (literal 1) (literal (-2))) = "1--2" := by decide
  obtain ⟨determined, rejected⟩ := toString_determines_tree
  refine ⟨?_, ?_⟩
  · intro e h
    exact determined _ _ (h.trans text.symm)
  · intro limit
    rw [← text]
    exact rejected _ limit ⟨-2, by decide, by decide⟩

end Expr

end ArithExpr
