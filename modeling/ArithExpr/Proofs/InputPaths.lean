import ArithExpr.Proofs.Arguments
import ArithExpr.Proofs.ErrorStream

/-! One text, given in two ways: down the page in a token file, with remarks and empty lines, or in
one argument, with blanks. Either way the text itself is what is left
(`TokenFile.assemble_of_laysOut` and `Text.withoutBlanks_of_interspersed`), so the runs have the
same answer, but that a log which shows everything names the file. -/

namespace ArithExpr

namespace TokenFile

/-- What a line can end with. -/
def lineEndings : List (List Char) := [['\n'], ['\r', '\n']]

/-- A token file, line by line, and the characters that it lays out. A line has one of them and then
a remark, or nothing but carriage returns. The last line needs no ending. -/
inductive LaysOut : List Char → List Char → Prop
  | token {c : Char} {remark ending text s : List Char} (one_line : '\n' ∉ remark)
    (ends : ending ∈ lineEndings) (rest : LaysOut text s) :
    LaysOut (c :: remark ++ ending ++ text) (c :: s)
  | empty {n : Nat} {ending text s : List Char} (ends : ending ∈ lineEndings)
    (rest : LaysOut text s) : LaysOut (List.replicate n '\r' ++ ending ++ text) s
  | lastToken {c : Char} {remark : List Char} (one_line : '\n' ∉ remark) :
    LaysOut (c :: remark) [c]
  | lastEmpty {n : Nat} : LaysOut (List.replicate n '\r') []

variable {ending remark text s : List Char} {c : Char}

theorem tokens_append_ending (ends : ending ∈ lineEndings) (line rest : List Char) :
    tokens (line ++ ending ++ rest) = tokens line ++ tokens rest := by
  simp only [lineEndings, List.mem_cons, List.not_mem_nil, or_false] at ends
  rcases ends with rfl | rfl
  · rw [List.append_assoc]
    exact tokens_append_newline line rest
  · have split : line ++ ['\r', '\n'] ++ rest = (line ++ ['\r']) ++ '\n' :: rest := by simp
    rw [split, tokens_append_newline, tokens_append_return]

theorem newline_notMem_replicate (n : Nat) : '\n' ∉ List.replicate n '\r' := by
  intro newline
  exact absurd (List.eq_of_mem_replicate newline) (by decide)

theorem tokens_replicate (n : Nat) : tokens (List.replicate n '\r') = [] := by
  rw [tokens_of_line (newline_notMem_replicate n)]
  cases n <;> rfl

theorem newline_notMem_cons (no_blank : ¬ Text.isBlank c) (one_line : '\n' ∉ remark) :
    '\n' ∉ c :: remark := by
  rw [List.mem_cons, not_or]
  refine ⟨?_, one_line⟩
  rintro rfl
  exact no_blank (by decide)

theorem tokens_cons (no_blank : ¬ Text.isBlank c) (one_line : '\n' ∉ remark) :
    tokens (c :: remark) = [c] := by
  have no_return : c ≠ '\r' := by
    rintro rfl
    exact no_blank (by decide)
  rw [tokens_of_line (newline_notMem_cons no_blank one_line)]
  simp [no_return]

theorem tokens_of_laysOut (layout : LaysOut text s) (no_blank : ∀ c ∈ s, ¬ Text.isBlank c) :
    tokens text = s := by
  induction layout with
  | token one_line ends rest ih =>
    obtain ⟨first, others⟩ := List.forall_mem_cons.1 no_blank
    rw [tokens_append_ending ends, tokens_cons first one_line, ih others]
    rfl
  | empty ends rest ih =>
    rw [tokens_append_ending ends, tokens_replicate, ih no_blank]
    rfl
  | lastToken one_line => exact tokens_cons (no_blank _ List.mem_cons_self) one_line
  | lastEmpty => exact tokens_replicate _

end TokenFile

namespace Text

/-- A text into which blanks were put, and the text. -/
inductive Interspersed : List Char → List Char → Prop
  | nil : Interspersed [] []
  | keep (c : Char) {e s : List Char} (rest : Interspersed e s) : Interspersed (c :: e) (c :: s)
  | blank {c : Char} {e s : List Char} (is_blank : isBlank c) (rest : Interspersed e s) :
    Interspersed (c :: e) s

variable {e s : List Char}

theorem filter_of_interspersed (blanks : Interspersed e s) :
    e.filter (!isBlank ·) = s.filter (!isBlank ·) := by
  induction blanks with
  | nil => rfl
  | keep c _ ih => rw [List.filter_cons, List.filter_cons, ih]
  | blank is_blank _ ih => simpa [is_blank] using ih

end Text

theorem TokenFile.assemble_of_laysOut {text s : String} (layout : LaysOut text.toList s.toList)
    (no_blank : ∀ c ∈ s.toList, ¬ Text.isBlank c) : assemble text = s := by
  rw [assemble, tokens_of_laysOut layout no_blank, String.ofList_toList]

theorem Text.withoutBlanks_of_interspersed {e s : String}
    (blanks : Interspersed e.toList s.toList) (no_blank : ∀ c ∈ s.toList, ¬ isBlank c) :
    withoutBlanks e = s := by
  have kept : s.toList.filter (!isBlank ·) = s.toList := by
    simpa [List.filter_eq_self] using no_blank
  rw [withoutBlanks, filter_of_interspersed blanks, kept, String.ofList_toList]

namespace Command

/-- A token file that lays a text out and an argument that has the text with blanks put into it give
the same text, and runs for the one and for the other print the same and exit alike, whatever is
around them. Besides the log they say the same, unless the log shows a path that has a newline. In
the same surroundings the logs are the same too, but that `--verbose` puts the record of the file in
front, and all others one moment later. The argument can stand wherever an option can. -/
theorem input_paths_agree {text e s : String} (no_blank : ∀ c ∈ s.toList, ¬ Text.isBlank c)
    (layout : TokenFile.LaysOut text.toList s.toList)
    (blanks : Text.Interspersed e.toList s.toList) :
    TokenFile.assemble text = s ∧ Text.withoutBlanks e = s ∧
      ∀ (before after file_arguments : List String) (o : Options) (path? : Option String),
        IsOpenEnded before → Request.ofArguments (before ++ after) = .run o → o.expr? = none →
        o.path? = none → Request.ofArguments file_arguments = .run { o with path? } →
        let path := path?.getD TokenFile.defaultPath
        let file (around : Surroundings) := respond around file_arguments
        let inline (around : Surroundings) :=
          respond around (before ++ ("--expr=" ++ e) :: after)
        ∀ around : Surroundings, around.contents path = .ok text →
          (∀ around' : Surroundings, (file around).exit = (inline around').exit ∧
            (file around).stdout = (inline around').stdout ∧
            (around.Lawful → around'.Lawful → around'.crash = around.crash →
              ∃ others, (file around).ownLines = others ++ (inline around').ownLines ∧
                (others ≠ [] → o.verbose ∧ '\n' ∈ path.toList))) ∧
          (o.verbose = false → (file around).stderr = (inline around).stderr) ∧
          (o.verbose = true → (file around).stderr =
            around.style (around.clock 0) (.opening path) ++ (inline around.later).stderr) := by
  have assembled := TokenFile.assemble_of_laysOut layout no_blank
  have normalized := Text.withoutBlanks_of_interspersed blanks no_blank
  refine ⟨assembled, normalized, ?_⟩
  intro before after file_arguments o path? place others no_expr no_path from_file path file inline
    around holds
  have from_argument := ofArguments_insert_expr place others no_expr no_path e
  have inline_eq (around : Surroundings) :
      inline around = { o with expr? := some e }.respond around := respond_of_run from_argument
  have file_eq : file around = { o with path? }.respond around := respond_of_run from_file
  have inline_readable (around : Surroundings) :
      { o with expr? := some e }.input around.contents = .ok s :=
    congrArg Except.ok normalized
  have file_readable : { o with path? }.input around.contents = .ok s := by
    simp only [Options.input, no_expr, path, holds, assembled] at holds ⊢
  have inline_unlogged : { o with expr? := some e }.loggedPath? = none := by
    simp [Options.loggedPath?, Options.file?]
  have file_logged : { o with path? }.loggedPath? = if o.verbose then some path else none := by
    simp [Options.loggedPath?, Options.file?, no_expr, path]
  rw [file_eq]
  simp only [inline_eq]
  refine ⟨fun around' => ⟨?_, ?_, fun lawful lawful' same_crash =>
    ⟨(around.front { o with path? }.loggedPath?).filter isOwnLine, ?_, fun others => ?_⟩⟩,
    fun quiet => ?_, fun loud => ?_⟩
  · rw [Options.exit_respond file_readable, Options.exit_respond (inline_readable around')]
    exact (Options.ending_crash _ around.crash around'.crash (parse s o.limit)).1
  · rw [Options.stdout_respond file_readable, Options.stdout_respond (inline_readable around')]
    exact (Options.ending_crash _ around.crash around'.crash (parse s o.limit)).2
  · rw [Options.ownLines_respond lawful file_readable,
      Options.ownLines_respond lawful' (inline_readable around'), inline_unlogged, same_crash]
    rfl
  · by_contra no_newline
    refine others (around.filter_front_eq_nil isOwn_isOwnLine lawful.style ?_)
    rintro ⟨shown, logged, newline⟩
    rw [file_logged] at logged
    split at logged
    · rename_i loud
      exact no_newline ⟨loud, Option.some.inj logged ▸ newline⟩
    · cases logged
  · have unlogged : { o with path? }.loggedPath? = none := by
      rw [file_logged, quiet]
      rfl
    rw [Options.stderr_respond file_readable, Options.stderr_respond (inline_readable around),
      Options.write_opening_of_none unlogged, Options.write_opening_of_none inline_unlogged]
    rfl
  · have logged : { o with path? }.loggedPath? = some path := by
      rw [file_logged, loud]
      rfl
    rw [Options.stderr_respond file_readable, Options.stderr_respond (inline_readable around.later),
      Options.write_opening_of_some logged, Options.write_opening_of_none inline_unlogged]
    rfl

/-- The letter does not belong to the grammar. -/
theorem input_paths_agree_on_letter :
    let text := "1 one\n\r\r\né"
    let e := "1\u00a0é"
    let around := Surroundings.plain (fun _ => .ok text) id "0.000012"
    let file := respond around ["-s", "tokens.txt", "-v", "--max-depth=3"]
    let inline := respond around.later ["--max-depth", "3", "--expr=" ++ e, "-sv"]
    TokenFile.assemble text = "1é" ∧ Text.withoutBlanks e = "1é" ∧ file.exit = inline.exit ∧
      file.stdout = inline.stdout ∧ file.ownLines = inline.ownLines ∧
      file.stderr = "1970-01-01T00:00:00.000000Z DEBUG reading token file path=tokens.txt\n" ++
        inline.stderr := by
  intro text e around file inline
  have no_blank : ∀ c ∈ "1é".toList, ¬ Text.isBlank c := by
    have kept : "1é".toList.all (!Text.isBlank ·) := by decide +kernel
    simpa using kept
  have layout : TokenFile.LaysOut text.toList "1é".toList := by
    have spelled : text.toList = ['1', ' ', 'o', 'n', 'e', '\n', '\r', '\r', '\n', 'é'] := by
      decide +kernel
    rw [spelled]
    have letter : TokenFile.LaysOut ['é'] ['é'] := .lastToken List.not_mem_nil
    have returns : TokenFile.LaysOut (List.replicate 1 '\r' ++ ['\r', '\n'] ++ ['é']) ['é'] :=
      .empty (by decide) letter
    have one : TokenFile.LaysOut ('1' :: [' ', 'o', 'n', 'e'] ++ ['\n'] ++ _) ['1', 'é'] :=
      .token (by decide) (by decide) returns
    exact one
  have blanks : Text.Interspersed e.toList "1é".toList := by
    have spelled : e.toList = ['1', '\u00a0', 'é'] := by decide +kernel
    rw [spelled]
    exact .keep '1' (.blank (by decide) (.keep 'é' .nil))
  obtain ⟨assembled, normalized, same⟩ := input_paths_agree no_blank layout blanks
  have place : IsOpenEnded ["--max-depth", "3"] := by
    constructor <;> decide +kernel
  have others : Request.ofArguments (["--max-depth", "3"] ++ ["-sv"]) =
      .run { maxDepth? := some 3, strict := true, verbose := true } := by decide +kernel
  have from_file : Request.ofArguments ["-s", "tokens.txt", "-v", "--max-depth=3"] =
      .run
        { path? := some "tokens.txt", maxDepth? := some 3, strict := true, verbose := true } := by
    decide +kernel
  have lawful : around.Lawful := Surroundings.lawful_plain (by decide)
  obtain ⟨alike, -, logged⟩ :=
    same ["--max-depth", "3"] ["-sv"] _ _ (some "tokens.txt") place others rfl rfl from_file
      around rfl
  obtain ⟨exits, prints, own⟩ := alike around.later
  obtain ⟨more, own_lines, newline⟩ := own lawful lawful.later rfl
  have one_line : '\n' ∉ "tokens.txt".toList := by decide +kernel
  have no_more : more = [] := by
    by_contra some_more
    exact one_line (newline some_more).2
  have opened : around.style (around.clock 0) (.opening "tokens.txt") =
      "1970-01-01T00:00:00.000000Z DEBUG reading token file path=tokens.txt\n" := by
    decide +kernel
  refine ⟨assembled, normalized, exits, prints, ?_, ?_⟩
  · rw [no_more, List.nil_append] at own_lines
    exact own_lines
  · rw [← opened]
    exact logged rfl

/-- With `--verbose` the stream shows which file is read. The log of a diagnostic shows when it was
found. -/
theorem input_paths_differ_in_log :
    let text := "1\n+\n"
    let e := "1+"
    let around := Surroundings.plain (fun _ => .ok text) id "0.000012"
    (∀ c ∈ e.toList, ¬ Text.isBlank c) ∧ TokenFile.LaysOut text.toList e.toList ∧
      Text.Interspersed e.toList e.toList ∧
      (respond around ["-v", "a\nb"]).stderr ≠ (respond around ["-v", "--expr=" ++ e]).stderr ∧
      (respond around ["tokens.txt"]).stderr ≠ (respond around.later ["--expr=" ++ e]).stderr := by
  intro text e around
  have no_blank : ∀ c ∈ e.toList, ¬ Text.isBlank c := by
    have kept : e.toList.all (!Text.isBlank ·) := by decide +kernel
    simpa using kept
  have spelled : e.toList = ['1', '+'] := by decide +kernel
  have layout : TokenFile.LaysOut text.toList e.toList := by
    have laid_out : text.toList = ['1', '\n', '+', '\n'] := by decide +kernel
    rw [laid_out, spelled]
    have plus : TokenFile.LaysOut ('+' :: [] ++ ['\n'] ++ List.replicate 0 '\r') ['+'] :=
      .token (by decide) (by decide) .lastEmpty
    have one : TokenFile.LaysOut ('1' :: [] ++ ['\n'] ++ ['+', '\n']) ['1', '+'] :=
      .token (by decide) (by decide) plus
    exact one
  have blanks : Text.Interspersed e.toList e.toList := by
    rw [spelled]
    exact .keep '1' (.keep '+' .nil)
  refine ⟨no_blank, layout, blanks, ?_, ?_⟩
  · decide +kernel
  · decide +kernel

end Command

end ArithExpr
