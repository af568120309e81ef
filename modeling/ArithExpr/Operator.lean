/-! The four operators and the level each one binds at. The reader takes operators off a text by
level, and the printer decides by precedence where parentheses are needed. -/

namespace ArithExpr

/-- How tightly an operator binds. -/
inductive Level where
  | additive
  | multiplicative
deriving DecidableEq

def Level.precedence : Level → Nat
  | .additive => 1
  | .multiplicative => 2

inductive Operator where
  | add
  | sub
  | mul
  | div
deriving DecidableEq

namespace Operator

def all : List Operator := [.add, .sub, .mul, .div]

def symbol : Operator → Char
  | .add => '+'
  | .sub => '-'
  | .mul => '*'
  | .div => '/'

/-- The word that stands beside the symbol in an outline. -/
def name : Operator → String
  | .add => "Add"
  | .sub => "Minus"
  | .mul => "Multiply"
  | .div => "Divide"

def level : Operator → Level
  | .add | .sub => .additive
  | .mul | .div => .multiplicative

def precedence (op : Operator) : Nat := op.level.precedence

def ofSymbol? : Char → Option Operator
  | '+' => some .add
  | '-' => some .sub
  | '*' => some .mul
  | '/' => some .div
  | _ => none

instance : ToString Operator := ⟨fun op => op.symbol.toString⟩

@[simp] theorem ofSymbol?_symbol (op : Operator) : ofSymbol? op.symbol = some op := by
  cases op <;> rfl

theorem ofSymbol?_eq_some_iff {c : Char} {op : Operator} : ofSymbol? c = some op ↔ c = op.symbol := by
  constructor
  · intro h
    unfold ofSymbol? at h
    split at h <;> cases h <;> rfl
  · rintro rfl
    exact ofSymbol?_symbol op

theorem symbol_injective {a b : Operator} (h : a.symbol = b.symbol) : a = b := by
  have := ofSymbol?_symbol a
  rw [h, ofSymbol?_symbol] at this
  exact (Option.some.inj this).symm

end Operator

end ArithExpr
