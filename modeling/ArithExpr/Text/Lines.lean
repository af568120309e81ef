/-! Text line by line. Newlines part a text into lines; behind the last newline stands one more
line, which is empty if the text ends there. -/

namespace ArithExpr.Text

def lines (text : String) : List String := (text.toList.splitOn '\n').map String.ofList

/-- Every text is one line, or a line in front of another text. -/
theorem line_induction {motive : List Char → Prop}
    (last : ∀ line, '\n' ∉ line → motive line)
    (first : ∀ line rest, '\n' ∉ line → motive rest → motive (line ++ '\n' :: rest))
    (text : List Char) : motive text := by
  induction size : text.length using Nat.strongRecOn generalizing text with
  | ind n ih =>
    subst size
    by_cases newline : '\n' ∈ text
    · obtain ⟨line, rest, rfl, no_newline⟩ := List.eq_append_cons_of_mem newline
      apply first line rest no_newline
      apply ih rest.length _ rest rfl
      simp only [List.length_append, List.length_cons]
      omega
    · exact last text newline

variable {line : String}

theorem lines_append_newline (text rest : String) :
    lines (text ++ "\n" ++ rest) = lines text ++ lines rest := by
  have split : (text ++ "\n" ++ rest).toList = text.toList ++ '\n' :: rest.toList := by simp
  rw [lines, split, List.splitOn_append_cons_self, List.map_append, lines, lines]

theorem lines_of_line (no_newline : '\n' ∉ line.toList) : lines line = [line] := by
  rw [lines, List.splitOn_eq_singleton no_newline, List.map_singleton, String.ofList_toList]

theorem lines_ended (text : String) : lines (text ++ "\n") = lines text ++ [""] := by
  rw [← String.append_empty (s := text ++ "\n"), lines_append_newline]
  rfl

theorem lines_line_append (no_newline : '\n' ∉ line.toList) (rest : String) :
    lines (line ++ "\n" ++ rest) = line :: lines rest := by
  rw [lines_append_newline, lines_of_line no_newline]
  rfl

/-- What is put in front of a text, and stays within its first line, leaves the others alone. -/
theorem tail_lines_append (no_newline : '\n' ∉ line.toList) (rest : String) :
    (lines (line ++ rest)).tail = (lines rest).tail := by
  by_cases newline : '\n' ∈ rest.toList
  · obtain ⟨first, others, split, first_line⟩ := List.eq_append_cons_of_mem newline
    have joined : (line ++ rest).toList = (line.toList ++ first) ++ '\n' :: others := by
      rw [String.toList_append, split, List.append_assoc]
    have one_line : '\n' ∉ line.toList ++ first := by
      rw [List.mem_append, not_or]
      exact ⟨no_newline, first_line⟩
    rw [lines, lines, joined, split, List.splitOn_append_cons_self_of_not_mem one_line,
      List.splitOn_append_cons_self_of_not_mem first_line]
    rfl
  · have one_line : '\n' ∉ (line ++ rest).toList := by
      rw [String.toList_append, List.mem_append, not_or]
      exact ⟨no_newline, newline⟩
    rw [lines_of_line one_line, lines_of_line newline]
    rfl

theorem lines_join_append {ls : List String} (no_newline : ∀ l ∈ ls, '\n' ∉ l.toList)
    (rest : String) : lines (String.join (ls.map (· ++ "\n")) ++ rest) = ls ++ lines rest := by
  induction ls with
  | nil => simp
  | cons l ls ih =>
    rw [List.map_cons, String.join_cons, String.append_assoc,
      lines_line_append (no_newline l List.mem_cons_self),
      ih fun m hm => no_newline m (List.mem_cons_of_mem _ hm)]
    rfl

theorem newline_notMem_of_mem_splitOn (text : List Char) :
    ∀ line ∈ text.splitOn '\n', '\n' ∉ line := by
  induction text using line_induction with
  | last line no_newline =>
    rw [List.splitOn_eq_singleton no_newline]
    exact List.forall_mem_singleton.2 no_newline
  | first line rest no_newline ih =>
    rw [List.splitOn_append_cons_self_of_not_mem no_newline]
    exact List.forall_mem_cons.2 ⟨no_newline, ih⟩

theorem newline_notMem_lines (text : String) : ∀ line ∈ lines text, '\n' ∉ line.toList := by
  intro line h
  obtain ⟨chars, part, rfl⟩ := List.mem_map.1 h
  rw [String.toList_ofList]
  exact newline_notMem_of_mem_splitOn _ chars part

theorem intercalate_lines (text : String) : "\n".intercalate (lines text) = text := by
  have parts : (lines text).map String.toList = text.toList.splitOn '\n' := by
    simp [lines, Function.comp_def]
  apply String.toList_injective
  rw [String.toList_intercalate, parts]
  exact List.intercalate_splitOn '\n'

theorem lines_intercalate {ls : List String} (some_line : ls ≠ [])
    (no_newline : ∀ line ∈ ls, '\n' ∉ line.toList) : lines ("\n".intercalate ls) = ls := by
  have parts : ("\n".intercalate ls).toList.splitOn '\n' = ls.map String.toList := by
    rw [String.toList_intercalate]
    exact List.splitOn_intercalate '\n' (by simpa using no_newline) (by simpa using some_line)
  rw [lines, parts]
  simp [Function.comp_def]

/-- A text has only one division by its newlines. -/
theorem lines_eq_iff {text : String} {ls : List String} : lines text = ls ↔
    ls ≠ [] ∧ (∀ line ∈ ls, '\n' ∉ line.toList) ∧ "\n".intercalate ls = text := by
  constructor
  · rintro rfl
    have some_line : lines text ≠ [] := by simp [lines]
    exact ⟨some_line, newline_notMem_lines text, intercalate_lines text⟩
  · rintro ⟨some_line, no_newline, rfl⟩
    exact lines_intercalate some_line no_newline

example : lines "1+\n2\n" = ["1+", "2", ""] := by decide

end ArithExpr.Text
