import ArithExpr.Command.Options

/-! Arguments that can be added to others. An option that is not given may be put in at any place
where an option can stand: it changes what is asked for by what it says, and the arguments before it
and behind it mean what they meant. The main fact is `readArguments_insert`. -/

namespace ArithExpr.Command

/-- What can be added to options in which its place is still free: no argument that leaves the place
free asks whether it has been added. -/
structure Options.Addition (free : Options → Prop) (add : Options → Options) : Prop where
  turnOn? {o o' : Options} {s : Switch} (turned : o.turnOn? s = some o') (still_free : free o') :
    free o ∧ (add o).turnOn? s = some (add o')
  assign? {o o' : Options} {p : Parameter} {value : String} (assigned : o.assign? p value = some o')
    (still_free : free o') : free o ∧ (add o).assign? p value = some (add o')
  setPath? {o o' : Options} {path : String} (set : o.setPath? path = some o')
    (still_free : free o') : free o ∧ (add o).setPath? path = some (add o')
  request {o : Options} (still_free : free o) (accepted : o.request = .run o) :
    (add o).request = .run (add o)

namespace Step

def options? : Step → Option Options
  | next o => some o
  | await _ o => some o
  | stop _ => none

def map (f : Options → Options) : Step → Step
  | next o => next (f o)
  | await p o => await p (f o)
  | stop request => stop request

@[simp] theorem options?_ofOption (o? : Option Options) : (ofOption o?).options? = o? := by
  cases o? <;> rfl

theorem ofOption_ne_stop_run (o? : Option Options) (o : Options) : ofOption o? ≠ stop (.run o) := by
  cases o? <;> exact nofun

theorem ofOption_eq_map {f : Options → Options} {o? o'? : Option Options} {o : Options}
    (before : o? = some o) (after : o'? = some (f o)) : ofOption o'? = (ofOption o?).map f := by
  rw [before, after]
  rfl

end Step

variable {free : Options → Prop} {add : Options → Options} {o o' : Options} {argument : String}
  {rest before after : List String} {request : Request}

/-! One argument. -/

theorem readLetters_ne_stop_run (letters : List Char) :
    readLetters o letters ≠ .stop (.run o') := by
  fun_induction readLetters o letters with
  | case4 _ _ _ _ _ _ _ ih => exact ih
  | case7 => exact Step.ofOption_ne_stop_run _ _
  | case8 => exact Step.ofOption_ne_stop_run _ _
  | _ => exact nofun

theorem readName_ne_stop_run (text : List Char) : readName o text ≠ .stop (.run o') := by
  unfold readName
  dsimp only
  split
  · exact Step.ofOption_ne_stop_run _ _
  · exact nofun
  · exact Step.ofOption_ne_stop_run _ _
  · exact nofun
  · exact nofun

theorem readArgument_ne_stop_run (argument : String) :
    readArgument o argument ≠ .stop (.run o') := by
  unfold readArgument
  split
  · exact readName_ne_stop_run _
  · exact readLetters_ne_stop_run _
  · exact Step.ofOption_ne_stop_run _ _

theorem Options.eq_of_request_eq_run (accepted : o.request = .run o') : o = o' := by
  unfold Options.request at accepted
  split at accepted
  · cases accepted
  · exact Request.run.inj accepted

/-! The equations of reading on. -/

theorem readArguments_of_next (no_paths : argument ≠ "--")
    (next : readArgument o argument = .next o') :
    readArguments o (argument :: rest) = readArguments o' rest := by
  rw [readArguments, next]
  exact no_paths

theorem readArguments_of_stop (no_paths : argument ≠ "--")
    (stopped : readArgument o argument = .stop request) :
    readArguments o (argument :: rest) = request := by
  rw [readArguments, stopped]
  exact no_paths

theorem readArguments_of_value {p : Parameter} {t : Options} {value : String}
    (no_paths : argument ≠ "--") (awaits : readArgument o argument = .await p t)
    (no_option : ¬ looksLikeOption value) (assigned : t.assign? p value = some o') :
    readArguments o (argument :: value :: rest) = readArguments o' rest := by
  rw [readArguments, awaits]
  · simp only [no_option, assigned, Bool.false_eq_true, ↓reduceIte]
  · exact no_paths

/-! What is added makes no difference to the other arguments. -/

section

variable (addition : Options.Addition free add)

include addition

theorem readLetters_add (letters : List Char) (read : (readLetters o letters).options? = some o')
    (still_free : free o') :
    free o ∧ readLetters (add o) letters = (readLetters o letters).map add := by
  fun_induction readLetters o letters with
  | case1 o =>
    cases read
    exact ⟨still_free, rfl⟩
  | case4 o c rest s found t turned ih =>
    obtain ⟨free_next, same⟩ := ih read
    obtain ⟨free_here, turned'⟩ := addition.turnOn? turned free_next
    refine ⟨free_here, ?_⟩
    rw [readLetters, found]
    simp only [turned', same]
  | case6 o c p found =>
    cases read
    refine ⟨still_free, ?_⟩
    rw [readLetters, found]
    rfl
  | case7 o c p found value =>
    rw [Step.options?_ofOption] at read
    obtain ⟨free_here, assigned⟩ := addition.assign? read still_free
    refine ⟨free_here, ?_⟩
    rw [readLetters, found]
    exact Step.ofOption_eq_map read assigned
  | case8 o c p found value not_empty no_sign =>
    rw [Step.options?_ofOption] at read
    obtain ⟨free_here, assigned⟩ := addition.assign? read still_free
    refine ⟨free_here, ?_⟩
    rw [readLetters, found]
    dsimp only
    split
    · exact absurd rfl not_empty
    · exact absurd rfl (no_sign _)
    · exact Step.ofOption_eq_map read assigned
  | _ => cases read

theorem readName_add (text : List Char) (read : (readName o text).options? = some o')
    (still_free : free o') : free o ∧ readName (add o) text = (readName o text).map add := by
  unfold readName at read ⊢
  dsimp only at read ⊢
  split at read
  · rename_i s none_given found
    rw [Step.options?_ofOption] at read
    obtain ⟨free_here, turned⟩ := addition.turnOn? read still_free
    exact ⟨free_here, Step.ofOption_eq_map read turned⟩
  · cases read
    exact ⟨still_free, rfl⟩
  · rw [Step.options?_ofOption] at read
    obtain ⟨free_here, assigned⟩ := addition.assign? read still_free
    exact ⟨free_here, Step.ofOption_eq_map read assigned⟩
  · cases read
  · cases read

theorem readArgument_add (read : (readArgument o argument).options? = some o')
    (still_free : free o') :
    free o ∧ readArgument (add o) argument = (readArgument o argument).map add := by
  unfold readArgument at read ⊢
  split at read
  · exact readName_add addition _ read still_free
  · exact readLetters_add addition _ read still_free
  · rw [Step.options?_ofOption] at read
    obtain ⟨free_here, set⟩ := addition.setPath? read still_free
    exact ⟨free_here, Step.ofOption_eq_map read set⟩

/-! All arguments. -/

theorem Options.Addition.request_eq (still_free : free o') (accepted : o.request = .run o') :
    free o ∧ (add o).request = .run (add o') := by
  obtain rfl := Options.eq_of_request_eq_run accepted
  exact ⟨still_free, addition.request still_free accepted⟩

theorem readPaths_add (read : readPaths o rest = .run o') (still_free : free o') :
    free o ∧ readPaths (add o) rest = .run (add o') := by
  fun_induction readPaths o rest with
  | case1 o => exact addition.request_eq still_free read
  | case2 o path rest t set ih =>
    obtain ⟨free_next, same⟩ := ih read
    obtain ⟨free_here, set'⟩ := addition.setPath? set free_next
    refine ⟨free_here, ?_⟩
    rw [readPaths, set']
    exact same
  | case3 => cases read

theorem readArguments_add (read : readArguments o rest = .run o') (still_free : free o') :
    free o ∧ readArguments (add o) rest = .run (add o') := by
  fun_induction readArguments o rest with
  | case1 o => exact addition.request_eq still_free read
  | case2 o rest => exact readPaths_add addition read still_free
  | case3 o argument rest no_paths request stopped =>
    subst read
    exact absurd stopped (readArgument_ne_stop_run argument)
  | case4 o argument rest no_paths t next ih =>
    obtain ⟨free_next, same⟩ := ih read
    obtain ⟨free_here, next'⟩ := readArgument_add addition (congrArg Step.options? next) free_next
    rw [next] at next'
    exact ⟨free_here, (readArguments_of_next no_paths next').trans same⟩
  | case7 o argument no_paths p t awaits value rest no_option u assigned ih =>
    obtain ⟨free_next, same⟩ := ih read
    obtain ⟨free_then, assigned'⟩ := addition.assign? assigned free_next
    obtain ⟨free_here, awaits'⟩ :=
      readArgument_add addition (congrArg Step.options? awaits) free_then
    rw [awaits] at awaits'
    exact ⟨free_here, (readArguments_of_value no_paths awaits' no_option assigned').trans same⟩
  | _ => cases read

/-- Another option can stand behind these arguments: they are complete, and no bare pair of hyphens
makes paths of what follows. -/
def IsOpenEnded (before : List String) : Prop :=
  "--" ∉ before ∧ Request.ofArguments before ≠ .misuse

/-- An argument that makes this addition can be put in wherever an option can stand. -/
theorem readArguments_insert {added : String} (no_paths : added ≠ "--")
    (adds : ∀ o, free o → readArgument o added = .next (add o)) (open_ended : "--" ∉ before)
    (complete : readArguments o before ≠ .misuse)
    (read : readArguments o (before ++ after) = .run o') (still_free : free o') :
    readArguments o (before ++ added :: after) = .run (add o') := by
  fun_induction readArguments o before with
  | case1 o =>
    obtain ⟨free_here, same⟩ := readArguments_add addition read still_free
    exact (readArguments_of_next no_paths (adds o free_here)).trans same
  | case2 => simp at open_ended
  | case3 o argument rest no_paths request stopped =>
    rw [List.cons_append, readArguments_of_stop no_paths stopped] at read
    subst read
    exact absurd stopped (readArgument_ne_stop_run argument)
  | case4 o argument rest no_paths t next ih =>
    rw [List.cons_append, readArguments_of_next no_paths next] at read ⊢
    apply ih _ complete read
    intro h
    exact open_ended (List.mem_cons_of_mem _ h)
  | case5 => exact absurd rfl complete
  | case6 => exact absurd rfl complete
  | case7 o argument no_paths p t awaits value rest no_option u assigned ih =>
    rw [List.cons_append, List.cons_append,
      readArguments_of_value no_paths awaits no_option assigned] at read ⊢
    apply ih _ complete read
    intro h
    exact open_ended (List.mem_cons_of_mem _ (List.mem_cons_of_mem _ h))
  | case8 => exact absurd rfl complete

theorem ofArguments_insert {added : String} (no_paths : added ≠ "--")
    (adds : ∀ o, free o → readArgument o added = .next (add o)) (place : IsOpenEnded before)
    (accepted : Request.ofArguments (before ++ after) = .run o) (still_free : free o) :
    Request.ofArguments (before ++ added :: after) = .run (add o) :=
  readArguments_insert addition no_paths adds place.1 place.2 accepted still_free

end

/-! A strict run, and an expression. -/

namespace Options

theorem assign?_maxDepth_eq_some_iff {value : String} : o.assign? .maxDepth value = some o' ↔
    o.maxDepth? = none ∧ ∃ depth, depthOfText? value = some depth ∧
      { o with maxDepth? := some depth } = o' := by
  cases given : o.maxDepth? with
  | none => simp [assign?, given]
  | some depth => simp [assign?, given]

theorem addition_strict : Addition (·.strict = false) ({ · with strict := true }) where
  turnOn? {o o' s} turned still_free := by
    cases s <;> grind [turnOn?]
  assign? {o o' p value} assigned still_free := by
    cases p <;> grind [assign?, assign?_maxDepth_eq_some_iff]
  setPath? set still_free := by grind [setPath?]
  request still_free accepted := by grind [request]

theorem addition_expr (expr : String) :
    Addition (fun o => o.expr? = none ∧ o.path? = none) ({ · with expr? := some expr }) where
  turnOn? {o o' s} turned still_free := by
    cases s <;> grind [turnOn?]
  assign? {o o' p value} assigned still_free := by
    cases p <;> grind [assign?, assign?_maxDepth_eq_some_iff]
  setPath? set still_free := by grind [setPath?]
  request still_free accepted := by grind [request]

end Options

theorem readArgument_strict {o : Options} (h : o.strict = false) :
    readArgument o "--strict" = .next { o with strict := true } := by
  simp [readArgument, readName, Setting.ofName?, Options.turnOn?, h, Step.ofOption]

theorem readArgument_expr {o : Options} (h : o.expr? = none) (expr : String) :
    readArgument o ("--expr=" ++ expr) = .next { o with expr? := some expr } := by
  simp [readArgument, readName, Setting.ofName?, Options.assign?, h, Step.ofOption]

/-- The option for strict runs can be put in wherever an option can stand. -/
theorem ofArguments_insert_strict (place : IsOpenEnded before)
    (accepted : Request.ofArguments (before ++ after) = .run o) (lenient : o.strict = false) :
    Request.ofArguments (before ++ "--strict" :: after) = .run { o with strict := true } :=
  ofArguments_insert Options.addition_strict (by decide) (fun _ h => readArgument_strict h) place
    accepted lenient

theorem ofArguments_insert_expr (place : IsOpenEnded before)
    (accepted : Request.ofArguments (before ++ after) = .run o) (no_expr : o.expr? = none)
    (no_path : o.path? = none) (expr : String) :
    Request.ofArguments (before ++ ("--expr=" ++ expr) :: after) =
      .run { o with expr? := some expr } := by
  have no_paths : "--expr=" ++ expr ≠ "--" := by
    intro h
    have := congrArg String.toList h
    simp at this
  exact ofArguments_insert (Options.addition_expr expr) no_paths
    (fun _ h => readArgument_expr h.1 expr) place accepted ⟨no_expr, no_path⟩

end ArithExpr.Command
