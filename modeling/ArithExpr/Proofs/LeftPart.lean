import Mathlib.Logic.Relation
import ArithExpr.Proofs.Sentences
import ArithExpr.Proofs.Session

/-! A left part that is finished is kept. Once a chain has a tree, whatever is read next can only be
put to the right of it or be dropped (`Keeps.combine`), at its own level and at the looser one
around it. So behind a sentence and an operator any text may follow: the tree of the sentence stays
in the tree of the whole, and nothing is found in the sentence or at the operator. -/

namespace ArithExpr

/-- Going to left operands, some number of times, leads from one tree to the other. -/
def Expr.LeadsLeftTo : Expr → Expr → Prop :=
  Relation.ReflTransGen fun e l => e.left? = some l

/-- The tree of the outcome has `e` as a left part, and nothing was found up to the character at
`last`. -/
structure Outcome.KeepsLeft (o : Outcome) (e : Expr) (last : Nat) : Prop where
  root : ∃ r, o.root = some r ∧ r.LeadsLeftTo e
  behind : ∀ d ∈ o.diagnostics, last < d.position

namespace Reader

/-- From `s` to `t` a reading goes on that comes to a tree with `e` as a left part. -/
structure Keeps (e : Expr) (s t : Reader) (tree : Option Expr) : Prop where
  root : ∃ r, tree = some r ∧ r.LeadsLeftTo e
  proceeds : ∃ text ds, s.Proceeds t text ds

variable {e : Expr} {s t : Reader} {tree : Option Expr} {c : Char} {op : Operator} {level : Level}
  {n : Nat}

namespace Keeps

theorem refl (e : Expr) (s : Reader) : Keeps e s s (some e) where
  root := ⟨e, rfl, .refl⟩
  proceeds := ⟨_, _, .refl s⟩

theorem skip (h : Keeps e s t tree) (next : t.next? = some c) : Keeps e s (t.skip 1) tree where
  root := h.root
  proceeds := by
    obtain ⟨_, _, before⟩ := h.proceeds
    exact ⟨_, _, before.trans (proceeds_skip next)⟩

theorem combine (h : Keeps e s t tree) (op : Operator) (part : Part) :
    Keeps e s (t.read part).after (Expr.combine? op tree (t.read part).tree) where
  root := by
    obtain ⟨l, rfl, left⟩ := h.root
    cases (t.read part).tree with
    | none => exact ⟨l, rfl, left⟩
    | some r => exact ⟨.binary op l r, rfl, .head rfl left⟩
  proceeds := by
    obtain ⟨_, _, before⟩ := h.proceeds
    obtain ⟨_, _, read⟩ := exists_proceeds_read part t
    exact ⟨_, _, before.trans read⟩

/-- A chain keeps what it has come to, whatever its further operands are. -/
theorem chain {le : t.rest.length ≤ n} (h : Keeps e s t tree) :
    Keeps e s (Reader.chain level tree t le).result.2 (Reader.chain level tree t le).result.1 := by
  -- on the length of the text left, as each operator leaves less of it
  induction size : t.rest.length using Nat.strongRecOn generalizing t tree n with
  | ind k ih =>
    subst size
    cases found : t.operator? level with
    | none =>
      rw [result_chain_of_none found]
      exact h
    | some next =>
      obtain ⟨op, u⟩ := next
      rw [result_chain_of_some found]
      obtain ⟨next, rfl, rfl⟩ := operator?_eq_some_iff.1 found
      have shorter := length_skip_of_next? next
      have read := ((t.skip 1).read op.level.operand).length_le
      exact ih _ (by omega) ((h.skip next).combine op op.level.operand) rfl

end Keeps

/-- Behind the operator that follows a part, all of the part is kept. -/
theorem keeps_read_phrase (first : Reads (.phrase op.level) s (some e) t)
    (next : t.next? = some op.symbol) :
    Keeps e (t.skip 1) (s.read (.phrase op.level)).result.2
      (s.read (.phrase op.level)).result.1 := by
  have found := operator?_eq_some_iff.2 ⟨next, rfl, rfl⟩
  rw [first.result_read, resume, result_chain_of_some found]
  exact ((Keeps.refl e (t.skip 1)).combine op op.level.operand).chain

theorem keeps_read_expression (first : Reads (.phrase op.level) s (some e) t)
    (next : t.next? = some op.symbol) :
    Keeps e (t.skip 1) (s.read .expression).result.2 (s.read .expression).result.1 := by
  have kept := keeps_read_phrase first next
  cases level : op.level with
  | additive => rwa [level] at kept
  | multiplicative =>
    rw [level] at kept
    rw [Part.expression, result_read_phrase]
    exact kept.chain

end Reader

variable {limit : Nat} {e : Expr} {op : Operator}

theorem Spells.keepsLeft {text : String} (h : Spells (.phrase op.level) text.toList e)
    (room : nesting 0 text.toList ≤ limit) (w : String) :
    (parse (text ++ toString op ++ w) limit).KeepsLeft e text.length := by
  have joined : (text ++ toString op ++ w).toList = text.toList ++ op.symbol :: w.toList := by
    simp [toString]
  have ends : (Part.phrase op.level).EndsBefore (op.symbol :: w.toList) :=
    Part.endsBefore_operator (Nat.le_refl _)
  let s := (Reader.ofChars (text ++ toString op ++ w).toList limit).start
  have first : Reads _ s (some e) (s.skip text.toList.length) := h.reads joined ends room
  have behind := Reader.rest_skip_of_eq_append (s := s) joined
  have next : (s.skip text.toList.length).next? = some op.symbol := congrArg List.head? behind
  obtain ⟨root, _, ds, proceeds⟩ := Reader.keeps_read_expression first next
  have all := proceeds.trans (Reader.proceeds_reportRest _)
  obtain ⟨read, isOver⟩ := reads_read .expression s
  rw [parse, Reader.outcome_of_reads read isOver]
  refine ⟨root, ?_⟩
  -- nothing was found before the operator, so all is found behind it
  intro d hd
  rw [all.diagnostics] at hd
  have place : 0 + text.toList.length + 1 ≤ d.position := (all.inOrder.within d hd).1
  rw [String.length_toList] at place
  omega

/-- A term that was read to the end of a text without a report is all of the text. -/
theorem spells_of_read_term {text : String}
    (whole : ((Reader.ofChars text.toList limit).read .term).after.position = text.length)
    (sound : ((Reader.ofChars text.toList limit).read .term).after.diagnostics = []) :
    ∃ e, ((Reader.ofChars text.toList limit).read .term).tree = some e ∧
      Spells .term text.toList e := by
  obtain ⟨read, -⟩ := reads_read .term (Reader.ofChars text.toList limit)
  have clean : ((Reader.ofChars text.toList limit).read .term).after.found = [] :=
    List.reverse_eq_nil_iff.1 sound
  obtain ⟨e, taken, root, spelled⟩ := read.exists_spelled clean (Nat.zero_le _)
  have begins : taken <+: text.toList := ⟨_, spelled.rest.symm⟩
  have place : text.length = 0 + taken.length :=
    whole.symm.trans (congrArg Reader.position spelled.after)
  have all : taken = text.toList := begins.eq_of_length (by rw [String.length_toList]; omega)
  exact ⟨e, root, all ▸ spelled.spells⟩

/-- Behind a text that was read without fault and an operator that does not bind tighter than it,
anything may follow: the tree of the text is a left part of the tree of the whole, and all that is
found is found behind the operator. An additive operator binds no tighter than any text, and a
multiplicative one no tighter than a text that is a single term. -/
theorem finished_left_part_kept {text : String} (clean : (parse text limit).IsClean)
    (root : (parse text limit).root = some e) :
    (∀ (op : Operator) (w : String), op.level = .additive →
      (parse (text ++ toString op ++ w) limit).KeepsLeft e text.length) ∧
    (let term := (Reader.ofChars text.toList limit).read .term
     term.after.position = text.length → term.after.diagnostics = [] →
      term.tree = some e ∧ ∀ (op : Operator) (w : String), op.level = .multiplicative →
        (parse (text ++ toString op ++ w) limit).KeepsLeft e text.length) := by
  obtain ⟨e', spells, room⟩ := exists_spells_of_diagnostics_eq_nil clean.2
  obtain rfl : e' = e := by
    rw [parse_of_spells spells room] at root
    exact Option.some.inj root
  refine ⟨?_, ?_⟩
  · intro op w additive
    rw [Part.expression, ← additive] at spells
    exact spells.keepsLeft room w
  · intro term whole sound
    obtain ⟨t, tree, single⟩ := spells_of_read_term whole sound
    obtain rfl : t = e' := Spells.tree_unique (.operand single) spells
    refine ⟨tree, ?_⟩
    intro op w multiplicative
    rw [Part.term, ← multiplicative] at single
    exact single.keepsLeft room w

/-- A single term, behind which two groups open, one of them too deep, and an operand is missing. -/
theorem finished_left_part_kept_in_product :
    (parse "(1+2)*3" 1).IsClean ∧
      (parse "(1+2)*3*((x" 1).KeepsLeft
        (.binary .mul (.binary .add (.literal 1) (.literal 2)) (.literal 3)) 7 ∧
      (parse "(1+2)*3-((x" 1).KeepsLeft
        (.binary .mul (.binary .add (.literal 1) (.literal 2)) (.literal 3)) 7 := by
  have clean : (parse "(1+2)*3" 1).IsClean := by decide +kernel
  have root : (parse "(1+2)*3" 1).root =
      some (.binary .mul (.binary .add (.literal 1) (.literal 2)) (.literal 3)) := by
    decide +kernel
  obtain ⟨additive, multiplicative⟩ := finished_left_part_kept clean root
  have whole : ((Reader.ofChars "(1+2)*3".toList 1).read .term).after.position = 7 := by
    decide +kernel
  have sound : ((Reader.ofChars "(1+2)*3".toList 1).read .term).after.diagnostics = [] := by
    decide +kernel
  obtain ⟨-, product⟩ := multiplicative whole sound
  exact ⟨clean, product .mul "((x" rfl, additive .sub "((x" rfl⟩

end ArithExpr
