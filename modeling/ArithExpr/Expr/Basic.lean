import ArithExpr.Operator

/-! Expression trees. A tree is a literal or an operator over two trees; how it was written
(parentheses, leading zeros) is gone. -/

namespace ArithExpr

inductive Expr where
  | literal (value : Int64)
  | binary (op : Operator) (left right : Expr)
deriving DecidableEq

namespace Expr

def isLiteral : Expr → Bool
  | literal _ => true
  | binary .. => false

def isBinary : Expr → Bool
  | literal _ => false
  | binary .. => true

def value? : Expr → Option Int64
  | literal v => some v
  | binary .. => none

def operator? : Expr → Option Operator
  | literal _ => none
  | binary op _ _ => some op

def children? : Expr → Option (Expr × Expr)
  | literal _ => none
  | binary _ l r => some (l, r)

def left? (e : Expr) : Option Expr := e.children?.map Prod.fst

def right? (e : Expr) : Option Expr := e.children?.map Prod.snd

/-- The number of nodes. -/
def size : Expr → Nat
  | literal _ => 1
  | binary _ l r => 1 + l.size + r.size

/-- The number of nodes on a longest path from the root. -/
def height : Expr → Nat
  | literal _ => 1
  | binary _ l r => 1 + max l.height r.height

variable {op : Operator} {l r : Expr} {v : Int64}

@[simp] theorem size_literal : (literal v).size = 1 := rfl

@[simp] theorem size_binary : (binary op l r).size = 1 + l.size + r.size := rfl

@[simp] theorem height_literal : (literal v).height = 1 := rfl

@[simp] theorem height_binary : (binary op l r).height = 1 + max l.height r.height := rfl

@[simp] theorem left?_binary : (binary op l r).left? = some l := rfl

@[simp] theorem right?_binary : (binary op l r).right? = some r := rfl

end Expr

end ArithExpr
