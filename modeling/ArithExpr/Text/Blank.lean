/-! Blanks: the characters with the Unicode property White_Space. They carry no meaning in an
inline expression. -/

namespace ArithExpr.Text

/-- The code points of the blanks, as closed ranges in increasing order. -/
def blankRanges : List (Nat × Nat) :=
  [(0x09, 0x0D), (0x20, 0x20), (0x85, 0x85), (0xA0, 0xA0), (0x1680, 0x1680), (0x2000, 0x200A),
    (0x2028, 0x2029), (0x202F, 0x202F), (0x205F, 0x205F), (0x3000, 0x3000)]

def isBlank (c : Char) : Bool :=
  blankRanges.any fun (first, last) => first ≤ c.toNat && c.toNat ≤ last

def withoutBlanks (text : String) : String :=
  String.ofList (text.toList.filter (!isBlank ·))

example : (blankRanges.map fun (first, last) => last - first + 1).sum = 25 := by decide

theorem toList_withoutBlanks (text : String) :
    (withoutBlanks text).toList = text.toList.filter (!isBlank ·) := by
  simp [withoutBlanks]

end ArithExpr.Text
