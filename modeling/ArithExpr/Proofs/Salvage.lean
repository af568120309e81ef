import ArithExpr.Proofs.Reads

/-! Reading told by the text alone. What a part comes to is fixed by the place where it begins, the
text that it takes and the one character behind that text; what stands further on and what was found
before do not count. `Salvages` says this without a reader. The main facts are `Reads.salvages` and
`Salvages.reads`, which pass between the two, and `parse_eq_of_salvages` for a whole text. -/

namespace ArithExpr

/-- If the next character is an operator, it is too loose for the part. For the next character of a
reader this is `Part.IsOver`. -/
def Part.EndsAt (part : Part) (next : Option Char) : Prop :=
  ∀ op, next = some (Operator.symbol op) → op.precedence < part.precedence

/-- From this text, before which `opened` groups are open and behind which `next` stands, a part
salvages a tree or none, and finds these diagnostics. -/
inductive Salvages (limit : Nat) : Part → (opened position : Nat) → List Char →
    (next : Option Char) → Option Expr → List Diagnostic → Prop where
  | literal {opened position : Nat} {digits : List Char} {next : Option Char} {v : Int64}
      (nonempty : digits ≠ []) (digit : ∀ c ∈ digits, c.isDigit) (ends : ∀ c ∈ next, ¬ c.isDigit)
      (value : Decimal.toInt64? digits = some v) :
      Salvages limit .factor opened position digits next (some (.literal v)) []
  | overflow {opened position : Nat} {digits : List Char} {next : Option Char}
      (nonempty : digits ≠ []) (digit : ∀ c ∈ digits, c.isDigit) (ends : ∀ c ∈ next, ¬ c.isDigit)
      (large : Decimal.toInt64? digits = none) :
      Salvages limit .factor opened position digits next none [.invalidInteger .overflow position]
  | unexpected {opened position : Nat} {next : Option Char} (no_digit : ∀ c ∈ next, ¬ c.isDigit)
      (no_group : next ≠ some '(') :
      Salvages limit .factor opened position [] next none [.unexpectedCharacter next position]
  | tooDeep {opened position : Nat} {next : Option Char} (deep : limit ≤ opened) :
      Salvages limit .factor opened position ['('] next none [.tooDeep limit position]
  | closed {opened position : Nat} {text : List Char} {next : Option Char} {tree : Option Expr}
      {ds : List Diagnostic} (room : opened < limit)
      (inner : Salvages limit .expression (opened + 1) (position + 1) text (some ')') tree ds) :
      Salvages limit .factor opened position ('(' :: text ++ [')']) next tree ds
  | unclosed {opened position : Nat} {text : List Char} {next : Option Char} {tree : Option Expr}
      {ds : List Diagnostic} (room : opened < limit)
      (inner : Salvages limit .expression (opened + 1) (position + 1) text next tree ds)
      (ends : Part.expression.EndsAt next) (no_close : next ≠ some ')') :
      Salvages limit .factor opened position ('(' :: text) next tree
        (ds ++ [.unclosedGroup (position + 1 + text.length)])
  | operand {level : Level} {opened position : Nat} {text : List Char} {next : Option Char}
      {tree : Option Expr} {ds : List Diagnostic}
      (only : Salvages limit level.operand opened position text next tree ds)
      (ends : level.operand.EndsAt next) :
      Salvages limit (.phrase level) opened position text next tree ds
  | chain {op : Operator} {opened position : Nat} {left right : List Char} {next : Option Char}
      {l r : Option Expr} {ds es : List Diagnostic}
      (first : Salvages limit (.phrase op.level) opened position left (some op.symbol) l ds)
      (last : Salvages limit op.level.operand opened (position + left.length + 1) right next r es)
      (ends : op.level.operand.EndsAt next) :
      Salvages limit (.phrase op.level) opened position (left ++ op.symbol :: right) next
        (Expr.combine? op l r) (ds ++ es)

namespace Reader

/-- From `s` to `t` a reader takes this text and finds these diagnostics. -/
structure Takes (s t : Reader) (text : List Char) (ds : List Diagnostic) : Prop where
  rest : s.rest = text ++ t.rest
  position : t.position = s.position + text.length
  diagnostics : t.diagnostics = s.diagnostics ++ ds

variable {s t u : Reader} {text more : List Char} {ds es : List Diagnostic} {c : Char}

namespace Takes

theorem trans (first : s.Takes t text ds) (last : t.Takes u more es) :
    s.Takes u (text ++ more) (ds ++ es) where
  rest := by rw [first.rest, last.rest, List.append_assoc]
  position := by rw [last.position, first.position, List.length_append, Nat.add_assoc]
  diagnostics := by rw [last.diagnostics, first.diagnostics, List.append_assoc]

theorem rest_eq (h : s.Takes t text ds) (rest : s.rest = text ++ more) : t.rest = more :=
  List.append_cancel_left (h.rest.symm.trans rest)

theorem next?_eq (h : s.Takes t text ds) (rest : s.rest = text ++ more) : t.next? = more.head? :=
  congrArg List.head? (h.rest_eq rest)

end Takes

/-! What each step takes. -/

theorem takes_skip (h : s.next? = some c) : s.Takes (s.skip 1) [c] [] where
  rest := rest_of_next? h
  position := rfl
  diagnostics := (List.append_nil _).symm

theorem takes_digits (s : Reader) : s.Takes (s.skip s.digits.length) s.digits [] where
  rest := rest_eq_digits_append
  position := rfl
  diagnostics := (List.append_nil _).symm

theorem takes_report (s : Reader) (d : Diagnostic) : s.Takes (s.report d) [] [d] where
  rest := rfl
  position := rfl
  diagnostics := diagnostics_report s d

theorem takes_openGroup (s : Reader) : s.Takes s.openGroup [] [] :=
  ⟨rfl, rfl, (List.append_nil _).symm⟩

theorem takes_closeGroup (s : Reader) : s.Takes s.closeGroup [] [] :=
  ⟨rfl, rfl, (List.append_nil _).symm⟩

theorem takes_opening (opens : s.next? = some '(') (inner : (s.skip 1).openGroup.Takes t text ds) :
    s.Takes t ('(' :: text) ds :=
  ((takes_skip opens).trans (takes_openGroup _)).trans inner

theorem takes_closed (opens : s.next? = some '(') (inner : (s.skip 1).openGroup.Takes t text ds)
    (closes : t.next? = some ')') :
    s.Takes (t.closeGroup.skip 1) ('(' :: text ++ [')']) ds := by
  simpa using (takes_opening opens inner).trans ((takes_closeGroup t).trans (takes_skip closes))

theorem takes_unclosed (opens : s.next? = some '(')
    (inner : (s.skip 1).openGroup.Takes t text ds) :
    s.Takes (t.closeGroup.report (.unclosedGroup t.position)) ('(' :: text)
      (ds ++ [.unclosedGroup (s.position + 1 + text.length)]) := by
  have place : t.position = s.position + 1 + text.length := inner.position
  have reported := (takes_closeGroup t).trans (takes_report _ (.unclosedGroup t.position))
  simpa [place] using (takes_opening opens inner).trans reported

end Reader

variable {part : Part} {s t : Reader} {tree : Option Expr} {text taken more : List Char}
  {limit opened position : Nat} {next : Option Char} {ds : List Diagnostic}

/-! From the reader to the text. -/

theorem Reads.salvages (h : Reads part s tree t) : ∃ text ds, s.Takes t text ds ∧
    Salvages s.limit part s.depth s.position text t.next? tree ds := by
  induction h with
  | @literal s v digit value =>
    exact ⟨_, _, s.takes_digits,
      .literal digit Reader.isDigit_of_mem_digits s.not_isDigit_after_digits value⟩
  | @overflow s digit large =>
    exact ⟨_, _, s.takes_digits.trans (Reader.takes_report _ _), by
      simpa using .overflow digit Reader.isDigit_of_mem_digits s.not_isDigit_after_digits large⟩
  | @unexpected s no_digit no_group =>
    have not_digit := s.not_isDigit_after_digits
    rw [no_digit] at not_digit
    exact ⟨_, _, s.takes_report _, .unexpected not_digit no_group⟩
  | @tooDeep s opens deep =>
    exact ⟨_, _, (Reader.takes_skip opens).trans (Reader.takes_report _ _), .tooDeep deep⟩
  | closed opens room _ closes ih =>
    obtain ⟨text, ds, takes, inner⟩ := ih
    rw [closes] at inner
    exact ⟨_, _, Reader.takes_closed opens takes closes, .closed room inner⟩
  | unclosed opens room _ isOver no_close ih =>
    obtain ⟨text, ds, takes, inner⟩ := ih
    exact ⟨_, _, Reader.takes_unclosed opens takes, .unclosed room inner isOver no_close⟩
  | operand _ isOver ih =>
    obtain ⟨text, ds, takes, only⟩ := ih
    exact ⟨text, ds, takes, .operand only isOver⟩
  | @chain op s t u _ _ first next _ isOver ih_first ih_last =>
    obtain ⟨left, ds, takes_left, read_left⟩ := ih_first
    obtain ⟨right, es, takes_right, read_right⟩ := ih_last
    rw [next] at read_left
    simp only [Reader.limit_skip, Reader.depth_skip, Reader.position_skip, first.limit_eq,
      first.depth_eq, takes_left.position] at read_right
    have whole := takes_left.trans ((Reader.takes_skip next).trans takes_right)
    exact ⟨_, _, whole, .chain read_left read_right isOver⟩

/-! From the text to the reader. -/

theorem Salvages.reads (h : Salvages limit part opened position text next tree ds)
    (same_limit : s.limit = limit) (same_depth : s.depth = opened)
    (same_position : s.position = position) (rest : s.rest = text ++ more)
    (behind : more.head? = next) : ∃ t, Reads part s tree t ∧ s.Takes t text ds := by
  -- each part is read by a reader of its own, and has the text of the next one behind it
  induction h generalizing s more with
  | @literal _ _ digits _ _ nonempty digit ends value =>
    subst behind
    have same := Reader.digits_of_eq_append rest digit ends
    subst same
    exact ⟨_, .literal nonempty value, s.takes_digits⟩
  | @overflow _ _ digits _ nonempty digit ends large =>
    subst behind same_position
    have same := Reader.digits_of_eq_append rest digit ends
    subst same
    exact ⟨_, .overflow nonempty large, by
      simpa using s.takes_digits.trans (Reader.takes_report _ _)⟩
  | unexpected no_digit no_group =>
    subst behind same_position
    have same : s.next? = more.head? := congrArg List.head? rest
    rw [← same] at no_digit no_group ⊢
    have no_digits : s.digits = [] :=
      Reader.digits_of_eq_append (List.nil_append _).symm (by simp) no_digit
    exact ⟨_, .unexpected no_digits no_group, s.takes_report _⟩
  | tooDeep deep =>
    subst same_limit same_depth same_position
    have opens : s.next? = some '(' := congrArg List.head? rest
    exact ⟨_, .tooDeep opens deep, (Reader.takes_skip opens).trans (Reader.takes_report _ _)⟩
  | @closed _ _ text _ _ _ room _ ih =>
    subst same_limit same_depth same_position
    have opens : s.next? = some '(' := congrArg List.head? rest
    have inside : (s.skip 1).openGroup.rest = text ++ ')' :: more := by simp [rest]
    obtain ⟨t, inner, takes⟩ := ih (s := (s.skip 1).openGroup) rfl rfl rfl inside rfl
    have closes : t.next? = some ')' := takes.next?_eq inside
    exact ⟨_, .closed opens room inner closes, Reader.takes_closed opens takes closes⟩
  | @unclosed _ _ text _ _ _ room _ ends no_close ih =>
    subst same_limit same_depth same_position behind
    have opens : s.next? = some '(' := congrArg List.head? rest
    have inside : (s.skip 1).openGroup.rest = text ++ more := by simp [rest]
    obtain ⟨t, inner, takes⟩ := ih (s := (s.skip 1).openGroup) rfl rfl rfl inside rfl
    rw [← takes.next?_eq inside] at ends no_close
    exact ⟨_, .unclosed opens room inner ends no_close, Reader.takes_unclosed opens takes⟩
  | operand _ ends ih =>
    subst behind
    obtain ⟨t, only, takes⟩ := ih same_limit same_depth same_position rest rfl
    rw [← takes.next?_eq rest] at ends
    exact ⟨t, .operand only ends, takes⟩
  | @chain op _ _ left right _ _ _ _ _ _ _ ends ih_first ih_last =>
    subst same_limit same_depth same_position behind
    have split : s.rest = left ++ op.symbol :: (right ++ more) := by simp [rest]
    obtain ⟨t, first, takes_left⟩ := ih_first rfl rfl rfl split rfl
    have next : t.next? = some op.symbol := takes_left.next?_eq split
    have behind_op : (t.skip 1).rest = right ++ more := by simp [takes_left.rest_eq split]
    obtain ⟨u, last, takes_right⟩ := ih_last (s := t.skip 1) first.limit_eq
      first.depth_eq (by simp [takes_left.position]) behind_op rfl
    rw [← takes_right.next?_eq behind_op] at ends
    exact ⟨u, .chain first next last ends,
      takes_left.trans ((Reader.takes_skip next).trans takes_right)⟩

/-! A reading does not go past a group that was left unclosed. -/

def Diagnostic.isUnclosedGroup : Diagnostic → Bool
  | unclosedGroup _ => true
  | _ => false

/-- What stands next is read as part of the expression around. -/
def GoesOn (next : Option Char) : Prop :=
  next = some ')' ∨ ∃ op : Operator, next = some op.symbol

theorem Part.EndsAt.ne_symbol (ends : expression.EndsAt next) (op : Operator) :
    next ≠ some op.symbol := by
  intro operator
  have loose := ends op operator
  revert loose
  cases op <;> decide

theorem Part.EndsAt.not_goesOn (ends : expression.EndsAt next) (no_close : next ≠ some ')') :
    ¬ GoesOn next := by
  rintro (close | ⟨op, operator⟩)
  · exact no_close close
  · exact ends.ne_symbol op operator

theorem Salvages.not_unclosed_of_goesOn (h : Salvages limit part opened position text next tree ds)
    (goesOn : GoesOn next) : ∀ d ∈ ds, ¬ d.isUnclosedGroup := by
  induction h with
  | literal => simp
  | overflow | unexpected | tooDeep => simp [Diagnostic.isUnclosedGroup]
  | closed _ _ ih => exact ih (.inl rfl)
  | unclosed _ _ ends no_close _ => exact absurd goesOn (ends.not_goesOn no_close)
  | operand _ _ ih => exact ih goesOn
  | @chain op _ _ _ _ _ _ _ _ _ _ _ _ ih_first ih_last =>
    intro d hd
    rcases List.mem_append.1 hd with hd | hd
    · exact ih_first (.inr ⟨op, rfl⟩) d hd
    · exact ih_last goesOn d hd

theorem Salvages.countP_unclosed_of_goesOn
    (h : Salvages limit part opened position text next tree ds) (goesOn : GoesOn next) :
    ds.countP Diagnostic.isUnclosedGroup = 0 :=
  List.countP_eq_zero.2 (h.not_unclosed_of_goesOn goesOn)

/-! Whole texts. -/

/-- What is found of a text that stands behind the expression. -/
def Diagnostic.leftover (position : Nat) (rest : List Char) : List Diagnostic :=
  if rest = [] then [] else [.trailingText (String.ofList rest) position]

theorem Diagnostic.eq_of_mem_leftover {rest : List Char} {d : Diagnostic}
    (h : d ∈ leftover position rest) : d = .trailingText (String.ofList rest) position := by
  unfold leftover at h
  split at h
  · cases h
  · exact List.mem_singleton.1 h

theorem Diagnostic.leftover_eq_nil_iff {position : Nat} {rest : List Char} :
    leftover position rest = [] ↔ rest = [] := by
  simp [leftover]

theorem Reader.diagnostics_reportRest (s : Reader) :
    s.reportRest.diagnostics = s.diagnostics ++ Diagnostic.leftover s.position s.rest := by
  unfold Reader.reportRest Diagnostic.leftover
  split <;> simp

theorem parse_eq_of_salvages (h : Salvages limit .expression 0 0 taken more.head? tree ds)
    (ends : Part.expression.EndsAt more.head?) :
    parse (String.ofList (taken ++ more)) limit =
      ⟨tree, ds ++ Diagnostic.leftover taken.length more, taken.length⟩ := by
  obtain ⟨t, read, takes⟩ :=
    h.reads (s := (Reader.ofChars (taken ++ more) limit).start) rfl rfl rfl rfl rfl
  have behind : t.rest = more := takes.rest_eq rfl
  have position : t.position = taken.length := takes.position.trans (Nat.zero_add _)
  have found : t.diagnostics = ds := takes.diagnostics
  rw [← behind] at ends
  rw [parse, String.toList_ofList, Reader.outcome_of_reads read ends,
    Reader.diagnostics_reportRest, found, position, behind]

theorem exists_salvages_parse (text : String) (limit : Nat) : ∃ taken more tree ds,
    text = String.ofList (taken ++ more) ∧
      Salvages limit .expression 0 0 taken more.head? tree ds ∧
      Part.expression.EndsAt more.head? := by
  obtain ⟨tree, t, read, isOver, -⟩ := (Reader.ofChars text.toList limit).exists_reads_outcome
  obtain ⟨taken, ds, takes, salvages⟩ := read.salvages
  refine ⟨taken, t.rest, tree, ds, ?_, salvages, isOver⟩
  have rest : text.toList = taken ++ t.rest := takes.rest
  rw [← rest, String.ofList_toList]

end ArithExpr
