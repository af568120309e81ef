import Mathlib.Data.List.Forall2
import ArithExpr.Text.TokenFile

/-! Token files by line. A newline cuts a file in two, and what stands above it and what stands
below it give their tokens without regard to each other (`TokenFile.tokens_append_newline`). So a
line gives its first character whatever the other lines are (`TokenFile.forall₂_tokens`), and one
more carriage return at the end of a line changes nothing (`TokenFile.tokens_returned`). -/

namespace ArithExpr

namespace Text

/-- The text with a carriage return in front of each newline. -/
def returned (text : List Char) : List Char :=
  text.flatMap fun c => if c = '\n' then ['\r', '\n'] else [c]

def withReturns (text : String) : String := String.ofList (returned text.toList)

variable {line : List Char}

theorem returned_of_line (no_newline : '\n' ∉ line) : returned line = line := by
  have same : ∀ c ∈ line, (if c = '\n' then ['\r', '\n'] else [c]) = [c] := by
    intro c h
    apply if_neg
    rintro rfl
    exact no_newline h
  rw [returned, List.flatMap_congr same, List.flatMap_singleton']

theorem returned_line_append (no_newline : '\n' ∉ line) (rest : List Char) :
    returned (line ++ '\n' :: rest) = line ++ ['\r'] ++ '\n' :: returned rest := by
  calc returned (line ++ '\n' :: rest)
    _ = returned line ++ ['\r', '\n'] ++ returned rest := by simp [returned]
    _ = line ++ ['\r'] ++ '\n' :: returned rest := by simp [returned_of_line no_newline]

end Text

namespace TokenFile

theorem tokens_returned (text : List Char) : tokens (Text.returned text) = tokens text := by
  induction text using Text.line_induction with
  | last line no_newline => rw [Text.returned_of_line no_newline]
  | first line rest no_newline ih =>
    rw [Text.returned_line_append no_newline, tokens_append_newline, tokens_append_return, ih,
      tokens_append_newline]

theorem return_notMem_tokens (text : List Char) : '\r' ∉ tokens text := by
  simp [tokens]

/-- A line has a token unless it is empty or begins with a carriage return. -/
def hasToken (line : String) : Bool := line ≠ "" ∧ line.toList.head? ≠ some '\r'

theorem forall₂_tokens (text : String) :
    List.Forall₂ (fun c line => line.toList.head? = some c) (tokens text.toList)
      ((Text.lines text).filter hasToken) := by
  rw [tokens, Text.lines]
  -- the induction is on the lines, and these can be any lists of characters
  induction text.toList.splitOn '\n' with
  | nil => exact .nil
  | cons line lines ih =>
    rw [List.map_cons]
    cases line with
    | nil =>
      have skipped : ¬ hasToken (String.ofList []) := by decide
      rw [List.filterMap_cons_none rfl, List.filter_cons_of_neg skipped]
      exact ih
    | cons c remark =>
      have first : (c :: remark).head? = some c := rfl
      rw [List.filterMap_cons_some first]
      by_cases is_return : c = '\r'
      · have skipped : ¬ hasToken (String.ofList (c :: remark)) := by simp [hasToken, is_return]
        rw [List.filter_cons_of_neg (by simpa using is_return), List.filter_cons_of_neg skipped]
        exact ih
      · have has_token : hasToken (String.ofList (c :: remark)) := by simp [hasToken, is_return]
        rw [List.filter_cons_of_pos (by simpa using is_return), List.filter_cons_of_pos has_token]
        exact .cons (by simp) ih

/-- What stands above a newline gives its tokens first, and what stands below gives its own. Lines
that end with a carriage return and a newline give the same tokens. The tokens are the first
characters of the lines that are not empty and do not begin with a carriage return, one for each of
these lines and in their order, and none of them is a newline or a carriage return. -/
theorem assemble_by_lines (text : String) :
    (∀ rest, assemble (text ++ "\n" ++ rest) = assemble text ++ assemble rest) ∧
    assemble (Text.withReturns text) = assemble text ∧
    ((∀ ls, Text.lines text = ls ↔
        ls ≠ [] ∧ (∀ line ∈ ls, '\n' ∉ line.toList) ∧ "\n".intercalate ls = text) ∧
      List.Forall₂ (fun c line => line.toList.head? = some c) (assemble text).toList
        ((Text.lines text).filter hasToken)) ∧
    '\n' ∉ (assemble text).toList ∧ '\r' ∉ (assemble text).toList := by
  refine ⟨?_, ?_, ⟨fun ls => Text.lines_eq_iff, ?_⟩, ?_, ?_⟩
  · intro rest
    have split : (text ++ "\n" ++ rest).toList = text.toList ++ '\n' :: rest.toList := by simp
    rw [assemble, split, tokens_append_newline, String.ofList_append, assemble, assemble]
  · rw [assemble, Text.withReturns, String.toList_ofList, tokens_returned, assemble]
  · rw [toList_assemble]
    exact forall₂_tokens text
  · rw [toList_assemble]
    exact newline_notMem_tokens text.toList
  · rw [toList_assemble]
    exact return_notMem_tokens text.toList

end TokenFile

end ArithExpr
