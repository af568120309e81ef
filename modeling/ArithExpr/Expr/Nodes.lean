import ArithExpr.Expr.Basic

/-! The nodes of a tree in preorder, each with the path that leads to it from the root. Every path
in the tree leads to one of them (`mem_nodes_iff`), an operator stands before its operands, and all
of the left operand before the right one (`pairwise_nodes`). -/

namespace ArithExpr

/-- The two places of an operand. -/
inductive Side where
  | left
  | right
deriving DecidableEq

namespace Expr

def operand? (e : Expr) : Side → Option Expr
  | .left => e.left?
  | .right => e.right?

/-- The tree to whose root the path leads. -/
def follow? (e : Expr) : List Side → Option Expr
  | [] => some e
  | side :: path => (e.operand? side).bind (·.follow? path)

/-- A node: the tree that it is the root of, and the path to it from the root of the whole tree. -/
structure Node where
  path : List Side
  tree : Expr
deriving DecidableEq

namespace Node

/-- The number of steps from the root to the node. -/
def distance (n : Node) : Nat := n.path.length

/-- A node of an operand on this side as a node of the whole tree. -/
def ofOperand (side : Side) (n : Node) : Node := { n with path := side :: n.path }

/-- A node comes before those below it, and if two are not below each other, the one to the left
comes first. -/
def Precedes (m n : Node) : Prop := List.Lex (fun a b => a = .left ∧ b = .right) m.path n.path

end Node

def nodes : Expr → List Node
  | e@(literal _) => [⟨[], e⟩]
  | e@(binary _ l r) => ⟨[], e⟩ :: (l.nodes.map (.ofOperand .left) ++ r.nodes.map (.ofOperand .right))

variable {e operand : Expr} {side : Side} {path : List Side} {n : Node}

theorem mem_nodes_iff_root_or : n ∈ e.nodes ↔
    n = ⟨[], e⟩ ∨ ∃ side operand, e.operand? side = some operand ∧
      ∃ m ∈ operand.nodes, m.ofOperand side = n := by
  cases e with
  | literal v =>
    rw [nodes, List.mem_singleton, iff_self_or]
    rintro ⟨side, operand, none, -⟩
    cases side <;> cases none
  | binary op l r =>
    rw [nodes, List.mem_cons, List.mem_append, List.mem_map, List.mem_map]
    apply or_congr_right
    refine ⟨?_, ?_⟩
    · rintro (left | right)
      · exact ⟨.left, l, rfl, left⟩
      · exact ⟨.right, r, rfl, right⟩
    · rintro ⟨side, operand, found, node⟩
      cases side with
      | left =>
        cases found
        exact .inl node
      | right =>
        cases found
        exact .inr node

theorem mem_nodes_iff : n ∈ e.nodes ↔ e.follow? n.path = some n.tree := by
  obtain ⟨path, tree⟩ := n
  induction path generalizing e with
  | nil =>
    rw [mem_nodes_iff_root_or, follow?]
    simp [Node.ofOperand, eq_comm]
  | cons side path ih =>
    rw [mem_nodes_iff_root_or, follow?, Option.bind_eq_some_iff]
    refine ⟨?_, ?_⟩
    · rintro (root | ⟨side, operand, found, m, hm, same⟩)
      · cases root
      · cases same
        exact ⟨operand, found, ih.1 hm⟩
    · rintro ⟨operand, found, follows⟩
      exact .inr ⟨side, operand, found, _, ih.2 follows, rfl⟩

theorem pairwise_nodes (e : Expr) : e.nodes.Pairwise Node.Precedes := by
  induction e with
  | literal v => exact List.pairwise_singleton _ _
  | binary op l r ihl ihr =>
    simp only [nodes, List.pairwise_cons, List.pairwise_append, List.pairwise_map, List.mem_append,
      List.mem_map]
    refine ⟨?_, ihl.imp .cons, ihr.imp .cons, ?_⟩
    · rintro _ (⟨n, -, rfl⟩ | ⟨n, -, rfl⟩) <;> exact .nil
    · rintro _ ⟨m, -, rfl⟩ _ ⟨n, -, rfl⟩
      exact .rel ⟨rfl, rfl⟩

/-! A longest path is as long as the height says. -/

theorem height_operand?_lt (h : e.operand? side = some operand) : operand.height < e.height := by
  cases e with
  | literal v => cases side <;> cases h
  | binary op l r =>
    rw [height_binary]
    cases side with
    | left =>
      obtain rfl : l = operand := Option.some.inj h
      omega
    | right =>
      obtain rfl : r = operand := Option.some.inj h
      omega

theorem height_pos (e : Expr) : 0 < e.height := by
  cases e with
  | literal v => exact Nat.one_pos
  | binary op l r => exact Nat.add_pos_left Nat.one_pos _

theorem length_lt_height {tree : Expr} (h : e.follow? path = some tree) :
    path.length < e.height := by
  induction path generalizing e with
  | nil => exact e.height_pos
  | cons side path ih =>
    obtain ⟨operand, found, follows⟩ := Option.bind_eq_some_iff.1 h
    exact Nat.lt_of_le_of_lt (ih follows) (height_operand?_lt found)

theorem exists_longest_path (e : Expr) :
    ∃ path tree, e.follow? path = some tree ∧ path.length + 1 = e.height := by
  induction e with
  | literal v => exact ⟨[], _, rfl, rfl⟩
  | binary op l r ihl ihr =>
    rw [height_binary]
    rcases Nat.le_total l.height r.height with le | le
    · obtain ⟨path, tree, follows, length⟩ := ihr
      exact ⟨.right :: path, tree, follows, by simp only [List.length_cons]; omega⟩
    · obtain ⟨path, tree, follows, length⟩ := ihl
      exact ⟨.left :: path, tree, follows, by simp only [List.length_cons]; omega⟩

/-- The greatest distance of a node from the root. -/
theorem max?_distance_nodes (e : Expr) : (e.nodes.map Node.distance).max? = some (e.height - 1) := by
  rw [List.max?_eq_some_iff]
  refine ⟨?_, ?_⟩
  · obtain ⟨path, tree, follows, length⟩ := e.exists_longest_path
    rw [← length]
    exact List.mem_map.2 ⟨⟨path, tree⟩, mem_nodes_iff.2 follows, rfl⟩
  · intro distance h
    obtain ⟨n, hn, rfl⟩ := List.mem_map.1 h
    exact Nat.le_pred_of_lt (length_lt_height (mem_nodes_iff.1 hn))

end Expr

end ArithExpr
