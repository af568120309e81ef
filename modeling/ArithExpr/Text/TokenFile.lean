import ArithExpr.Text.Lines

/-! Token files. A token file spells an expression down the page: each line that is not empty gives
its first character, and the rest of the line is a remark. -/

namespace ArithExpr.TokenFile

/-- The file that is read when none is named. -/
def defaultPath : String := "lex_output.txt"

/-- The characters that the lines give. A line that begins with a carriage return is empty. -/
def tokens (text : List Char) : List Char :=
  ((text.splitOn '\n').filterMap List.head?).filter (· ≠ '\r')

def assemble (text : String) : String := String.ofList (tokens text.toList)

@[simp] theorem toList_assemble (text : String) : (assemble text).toList = tokens text.toList := by
  simp [assemble]

example : tokens "1 one\r\n+\r\n\r\n2".toList = ['1', '+', '2'] := by decide

/-! Line by line. -/

variable {line : List Char}

theorem tokens_append_newline (text rest : List Char) :
    tokens (text ++ '\n' :: rest) = tokens text ++ tokens rest := by
  simp only [tokens, List.splitOn_append_cons_self, List.filterMap_append, List.filter_append]

theorem tokens_of_line (no_newline : '\n' ∉ line) :
    tokens line = line.head?.toList.filter (· ≠ '\r') := by
  rw [tokens, List.splitOn_eq_singleton no_newline]
  cases line <;> rfl

/-- A carriage return at the end is of the remark, or is alone on its line. -/
theorem tokens_append_return (text : List Char) : tokens (text ++ ['\r']) = tokens text := by
  induction text using Text.line_induction with
  | last line no_newline =>
    have no_newline' : '\n' ∉ line ++ ['\r'] := by simpa using no_newline
    rw [tokens_of_line no_newline, tokens_of_line no_newline']
    cases line <;> rfl
  | first line rest _ ih =>
    rw [List.append_assoc, List.cons_append, tokens_append_newline, tokens_append_newline, ih]

theorem newline_notMem_tokens (text : List Char) : '\n' ∉ tokens text := by
  have of_line (line : List Char) (no_newline : '\n' ∉ line) : '\n' ∉ tokens line := by
    rw [tokens_of_line no_newline, List.mem_filter, Option.mem_toList]
    rintro ⟨first, -⟩
    exact no_newline (List.mem_of_mem_head? first)
  induction text using Text.line_induction with
  | last line no_newline => exact of_line line no_newline
  | first line rest no_newline ih =>
    rw [tokens_append_newline, List.mem_append, not_or]
    exact ⟨of_line line no_newline, ih⟩

end ArithExpr.TokenFile
