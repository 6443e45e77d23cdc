import DiceNotation.CommandLine

/-!
# Understood Arguments

Which arguments ask for a roll, said one option at a time. What an argument is can be told from
how it is written (`Argument.isWritten_of`). Some arguments are read together and change the
options (`Reads`); a list of arguments is understood if all of them are read in turn, up to a
`--` that makes words of what is behind it (`Understood`). This is what
reading does (`readArguments_eq_roll_iff`). So an option may stand anywhere among the arguments
(`Understood.insert_check`), and words may always be given behind `--` (`Understood.delimit`).
-/

namespace DiceNotation.CommandLine

/-! ## §1 Options -/

/-- Arguments that are read together, and what they make of the options so far. -/
inductive Reads : List String → Options → Options → Prop where
  | strict {options : Options} :
      options.strict = false → Reads ["--strict"] options { options with strict := true }
  | check {options : Options} :
      options.check = false → Reads ["--check"] options { options with check := true }
  /-- A seed is the argument behind its option. -/
  | seed {options : Options} {value : String} {seed : UInt64} :
      options.seed = none → readSeed? value = some seed →
        Reads ["--seed", value] options { options with seed := some seed }
  /-- A seed is attached to its option. -/
  | attachedSeed {options : Options} {value : String} {seed : UInt64} :
      options.seed = none → readSeed? value = some seed →
        Reads ["--seed=" ++ value] options { options with seed := some seed }
  | word {options : Options} {argument : String} : isOptionLike argument = false →
      Reads [argument] options (options.addWords [argument])

namespace Options

variable {options options' : Options}

theorem withStrict?_eq_some_iff : options.withStrict? = some options' ↔
    options.strict = false ∧ { options with strict := true } = options' := by
  cases hstrict : options.strict <;> simp [withStrict?, hstrict]

theorem withCheck?_eq_some_iff : options.withCheck? = some options' ↔
    options.check = false ∧ { options with check := true } = options' := by
  cases hcheck : options.check <;> simp [withCheck?, hcheck]

theorem withSeed?_eq_some_iff {value : String} : options.withSeed? value = some options' ↔
    options.seed = none ∧
      ∃ seed, readSeed? value = some seed ∧ { options with seed := some seed } = options' := by
  rw [withSeed?]
  cases hseed : options.seed with
  | none => simp only [Option.map_eq_some_iff, true_and]
  | some seed => simp

end Options

/-! ## §2 What an argument is -/

theorem toList_attachedSeed (value : String) :
    ("--seed=" ++ value).toList = '-' :: '-' :: 's' :: 'e' :: 'e' :: 'd' :: '=' :: value.toList :=
  String.toList_append

theorem attachedSeed_ne {option : String} (h : ¬"--seed=".toList <+: option.toList)
    (value : String) : "--seed=" ++ value ≠ option := by
  rintro rfl
  exact h ⟨value.toList, (toList_attachedSeed value).symm⟩

theorem attachedSeed?_attachedSeed (value : String) :
    attachedSeed? ("--seed=" ++ value) = some value := by
  rw [attachedSeed?, toList_attachedSeed]
  exact congrArg some String.ofList_toList

theorem eq_of_attachedSeed?_eq_some {argument value : String}
    (h : attachedSeed? argument = some value) : argument = "--seed=" ++ value := by
  rw [attachedSeed?] at h
  split at h
  · next hfront =>
    obtain ⟨rest, hrest⟩ := List.isPrefixOf_iff_prefix.mp hfront
    rw [← hrest] at h
    obtain rfl : String.ofList rest = value := Option.some.inj h
    rw [← String.toList_inj, toList_attachedSeed, String.toList_ofList, ← hrest]
    rfl
  · cases h

theorem isOptionLike_of_asksFor {letter : Char} {name argument : String}
    (h : asksFor letter name argument = true) : isOptionLike argument = true := by
  rw [asksFor] at h
  split at h
  · next hchars =>
    rw [isOptionLike, hchars]
    rfl
  · cases h

namespace Argument

/-- How an argument is written. -/
def IsWritten : Argument → String → Prop
  | delimiter, argument => argument = "--"
  | help, argument => asksFor 'h' "--help" argument = true
  | version, argument => asksFor 'V' "--version" argument = true
  | strict, argument => argument = "--strict"
  | check, argument => argument = "--check"
  | seed, argument => argument = "--seed"
  | attachedSeed value, argument => argument = "--seed=" ++ value
  | unknown, argument => isOptionLike argument = true
  | word, argument => isOptionLike argument = false

theorem isWritten_of (argument : String) : (Argument.of argument).IsWritten argument := by
  fun_cases Argument.of argument <;> try assumption
  · next hattached => exact eq_of_attachedSeed?_eq_some hattached
  · next hlike => exact Bool.eq_false_iff.mpr hlike

/-- Whatever is no word is written like an option. -/
theorem IsWritten.isOptionLike {kind : Argument} {argument : String}
    (h : kind.IsWritten argument) (hkind : kind ≠ word) : isOptionLike argument = true := by
  cases kind with
  | word => exact absurd rfl hkind
  | unknown => exact h
  | help | version => exact isOptionLike_of_asksFor h
  | delimiter | strict | check | seed =>
    obtain rfl := h
    rfl
  | attachedSeed value =>
    obtain rfl := h
    rw [CommandLine.isOptionLike, toList_attachedSeed]
    rfl

theorem of_eq_word_iff {argument : String} :
    Argument.of argument = word ↔ isOptionLike argument = false := by
  have hwritten := isWritten_of argument
  constructor
  · intro hword
    rwa [hword] at hwritten
  · intro hlike
    refine Decidable.byContradiction fun hkind => ?_
    rw [hwritten.isOptionLike hkind] at hlike
    cases hlike

theorem of_attachedSeed (value : String) :
    Argument.of ("--seed=" ++ value) = attachedSeed value := by
  have hne (name : String) (hname : ¬"--seed=".toList <+: name.toList) :
      "--seed=" ++ value ≠ name := attachedSeed_ne hname value
  have hasks (letter : Char) (name : String) (hletter : '-' ≠ letter)
      (hname : ¬"--seed=".toList <+: name.toList) :
      asksFor letter name ("--seed=" ++ value) = false := by
    rw [asksFor, toList_attachedSeed]
    simp [hletter, hne name hname]
  rw [Argument.of, if_neg (hne "--" (by decide)), hasks 'h' "--help" (by decide) (by decide),
    hasks 'V' "--version" (by decide) (by decide), if_neg (hne "--strict" (by decide)),
    if_neg (hne "--check" (by decide)), if_neg (hne "--seed" (by decide)),
    attachedSeed?_attachedSeed]
  rfl

end Argument

/-- Reading goes on behind arguments that are read together. -/
theorem Reads.readArguments_append {arguments : List String} {options options' : Options}
    (h : Reads arguments options options') (rest : List String) :
    readArguments (arguments ++ rest) options = readArguments rest options' := by
  cases h with
  | strict hstrict =>
    have hargument : Argument.of "--strict" = .strict := by decide
    have hoptions := Options.withStrict?_eq_some_iff.mpr ⟨hstrict, rfl⟩
    simp [readArguments.eq_def ("--strict" :: rest), hargument, hoptions]
  | check hcheck =>
    have hargument : Argument.of "--check" = .check := by decide
    have hoptions := Options.withCheck?_eq_some_iff.mpr ⟨hcheck, rfl⟩
    simp [readArguments.eq_def ("--check" :: rest), hargument, hoptions]
  | @seed _ value seed hseed hvalue =>
    have hargument : Argument.of "--seed" = .seed := by decide
    have hoptions := Options.withSeed?_eq_some_iff.mpr ⟨hseed, seed, hvalue, rfl⟩
    simp [readArguments.eq_def ("--seed" :: value :: rest), hargument, hoptions]
  | @attachedSeed _ value seed hseed hvalue =>
    have hargument := Argument.of_attachedSeed value
    have hoptions := Options.withSeed?_eq_some_iff.mpr ⟨hseed, seed, hvalue, rfl⟩
    simp [readArguments.eq_def (("--seed=" ++ value) :: rest), hargument, hoptions]
  | @word _ argument hword =>
    have hargument := Argument.of_eq_word_iff.mpr hword
    simp [readArguments.eq_def (argument :: rest), hargument]

/-! ## §3 Lists of arguments -/

/-- Arguments that are understood, and what they make of the options so far. -/
inductive Understood : List String → Options → Options → Prop where
  /-- Nothing is left to read. -/
  | done (options : Options) : Understood [] options options
  /-- Behind `--` there are words only. -/
  | delimiter (options : Options) (words : List String) :
      Understood ("--" :: words) options (options.addWords words)
  /-- Some arguments are read, and then the others. -/
  | reads {arguments rest : List String} {options options₁ options₂ : Options} :
      Reads arguments options options₁ → Understood rest options₁ options₂ →
        Understood (arguments ++ rest) options options₂

/-- Options that are read on from a setting were set. -/
theorem exists_of_elim_eq_roll {options? : Option Options} {read : Options → Request}
    {options' : Options} (h : options?.elim .misused read = .roll options') :
    ∃ options, options? = some options ∧ read options = .roll options' := by
  cases options? with
  | none => cases h
  | some options => exact ⟨options, rfl, h⟩

theorem understood_of_readArguments {arguments : List String} {options options' : Options}
    (h : readArguments arguments options = .roll options') :
    Understood arguments options options' := by
  -- By recursion on their number, since a seed takes two of them at once
  match arguments with
  | [] =>
    cases h
    exact .done _
  | argument :: rest =>
    have hwritten := Argument.isWritten_of argument
    rw [readArguments.eq_def] at h
    dsimp only at h
    generalize Argument.of argument = kind at h hwritten
    cases kind with
    | delimiter =>
      obtain rfl := hwritten
      cases h
      exact .delimiter options rest
    | help | version | unknown => cases h
    | strict =>
      obtain rfl := hwritten
      obtain ⟨_, hoptions, h⟩ := exists_of_elim_eq_roll h
      obtain ⟨hstrict, rfl⟩ := Options.withStrict?_eq_some_iff.mp hoptions
      exact .reads (.strict hstrict) (understood_of_readArguments h)
    | check =>
      obtain rfl := hwritten
      obtain ⟨_, hoptions, h⟩ := exists_of_elim_eq_roll h
      obtain ⟨hcheck, rfl⟩ := Options.withCheck?_eq_some_iff.mp hoptions
      exact .reads (.check hcheck) (understood_of_readArguments h)
    | seed =>
      obtain rfl := hwritten
      cases rest with
      | nil => cases h
      | cons value rest =>
        obtain ⟨_, hoptions, h⟩ := exists_of_elim_eq_roll h
        obtain ⟨hseed, seed, hvalue, rfl⟩ := Options.withSeed?_eq_some_iff.mp hoptions
        exact .reads (.seed hseed hvalue) (understood_of_readArguments h)
    | attachedSeed value =>
      obtain rfl := hwritten
      obtain ⟨_, hoptions, h⟩ := exists_of_elim_eq_roll h
      obtain ⟨hseed, seed, hvalue, rfl⟩ := Options.withSeed?_eq_some_iff.mp hoptions
      exact .reads (.attachedSeed hseed hvalue) (understood_of_readArguments h)
    | word => exact .reads (.word hwritten) (understood_of_readArguments h)
termination_by arguments.length

theorem Understood.readArguments_eq {arguments : List String} {options options' : Options}
    (h : Understood arguments options options') :
    readArguments arguments options = .roll options' := by
  induction h with
  | done options => rw [readArguments]
  | delimiter options words => rw [readArguments.eq_def]; rfl
  | reads hreads _ ih => rw [hreads.readArguments_append, ih]

/-- **Reading arguments**: they ask for a roll iff they are understood. -/
theorem readArguments_eq_roll_iff {arguments : List String} {options options' : Options} :
    readArguments arguments options = .roll options' ↔ Understood arguments options options' :=
  ⟨understood_of_readArguments, Understood.readArguments_eq⟩

/-! ## §4 One more option -/

theorem Reads.withCheck {arguments : List String} {options options' : Options}
    (h : Reads arguments options options') (hcheck : options'.check = false) :
    options.check = false ∧
      Reads arguments { options with check := true } { options' with check := true } := by
  cases h with
  | strict hstrict => exact ⟨hcheck, .strict hstrict⟩
  | check => cases hcheck
  | seed hseed hvalue => exact ⟨hcheck, .seed hseed hvalue⟩
  | attachedSeed hseed hvalue => exact ⟨hcheck, .attachedSeed hseed hvalue⟩
  | word hword => exact ⟨hcheck, .word hword⟩

/-- Arguments that are read together are not torn apart, unless behind `--seed`. -/
theorem Reads.exists_eq_append {taken rest before after : List String}
    {options options' : Options} (h : Reads taken options options')
    (hall : before ++ after = taken ++ rest) (hbefore : before ≠ [])
    (hseed : before.getLast? ≠ some "--seed") :
    ∃ more, before = taken ++ more ∧ more ++ after = rest := by
  rcases List.append_eq_append_iff.mp hall with ⟨behind, htaken, hafter⟩ | ⟨more, hmore, hrest⟩
  · obtain ⟨argument, front, rfl⟩ := List.exists_cons_of_ne_nil hbefore
    cases h with
    | strict | check | attachedSeed | word =>
      -- There is one argument only
      obtain ⟨rfl, hnil⟩ := List.cons.inj htaken
      obtain ⟨rfl, rfl⟩ := List.append_eq_nil_iff.mp hnil.symm
      exact ⟨[], rfl, hafter⟩
    | seed =>
      obtain ⟨rfl, hvalue⟩ := List.cons.inj htaken
      cases front with
      | nil => exact absurd rfl hseed
      | cons value front =>
        obtain ⟨rfl, hnil⟩ := List.cons.inj hvalue
        obtain ⟨rfl, rfl⟩ := List.append_eq_nil_iff.mp hnil.symm
        exact ⟨[], rfl, hafter⟩
  · exact ⟨more, hmore, hrest.symm⟩

namespace Understood

variable {arguments : List String} {options options' : Options}

/-- Without `--check` among some arguments they are understood behind it as well. -/
theorem withCheck (h : Understood arguments options options') (hcheck : options'.check = false) :
    options.check = false ∧
      Understood arguments { options with check := true } { options' with check := true } := by
  induction h with
  | done options => exact ⟨hcheck, .done _⟩
  | delimiter options words => exact ⟨hcheck, .delimiter _ words⟩
  | reads hreads _ ih =>
    obtain ⟨hcheck₁, hrest⟩ := ih hcheck
    obtain ⟨hcheck₀, hreads⟩ := hreads.withCheck hcheck₁
    exact ⟨hcheck₀, .reads hreads hrest⟩

theorem cons_check (h : Understood arguments options options') (hcheck : options'.check = false) :
    Understood ("--check" :: arguments) options { options' with check := true } := by
  obtain ⟨hcheck₀, hchecked⟩ := h.withCheck hcheck
  exact .reads (.check hcheck₀) hchecked

/-- **An option stands anywhere**: `--check` may be put between any two arguments, but not
behind `--` and not between `--seed` and its value. -/
theorem insert_check {before after : List String}
    (h : Understood (before ++ after) options options') (hcheck : options'.check = false)
    (hdelimiter : "--" ∉ before) (hseed : before.getLast? ≠ some "--seed") :
    Understood (before ++ "--check" :: after) options { options' with check := true } := by
  generalize hall : before ++ after = arguments at h
  induction h generalizing before with
  | done options =>
    obtain ⟨rfl, rfl⟩ := List.append_eq_nil_iff.mp hall
    exact (Understood.done options).cons_check hcheck
  | delimiter options words =>
    cases before with
    | nil =>
      obtain rfl := hall
      exact (Understood.delimiter options words).cons_check hcheck
    | cons argument before =>
      obtain ⟨rfl, -⟩ := List.cons.inj hall
      exact absurd List.mem_cons_self hdelimiter
  | @reads taken rest options options₁ options₂ hreads hrest ih =>
    by_cases hbefore : before = []
    · subst hbefore
      obtain rfl := hall
      exact (Understood.reads hreads hrest).cons_check hcheck
    · obtain ⟨more, rfl, hmore⟩ := hreads.exists_eq_append hall hbefore hseed
      rw [List.append_assoc]
      apply Understood.reads hreads
      apply ih hcheck _ _ hmore
      · exact fun hmem => hdelimiter (List.mem_append_right taken hmem)
      · exact fun hlast => hseed (by rw [List.getLast?_append, hlast]; rfl)

/-! ## §5 Words behind `--` -/

/-- Behind understood arguments `--` may be put, and any words behind it. -/
theorem delimit (h : Understood arguments options options') (hdelimiter : "--" ∉ arguments)
    (words : List String) :
    Understood (arguments ++ "--" :: words) options
      (options'.addWords words) := by
  induction h with
  | done options => exact .delimiter options words
  | delimiter => exact absurd List.mem_cons_self hdelimiter
  | @reads taken rest options options₁ options₂ hreads hrest ih =>
    rw [List.append_assoc]
    exact .reads hreads (ih fun hmem => hdelimiter (List.mem_append_right taken hmem))

end Understood

end DiceNotation.CommandLine
