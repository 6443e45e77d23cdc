import DiceNotation.Proofs.Arguments
import DiceNotation.Proofs.TermByTerm
import DiceNotation.Proofs.Unambiguous

/-!
# Replaying an Invocation

The terms that an invocation prints can be given to another one. They are an expression in
both grammars that is read as the same terms (`parse_canonicalText`), so a roller in the same
state shows the same faces for them (`Roller.rollText_canonical`); and they start with a digit,
so they are taken for a word and not for an option (`isOptionLike_of_startsDigit`). Main statement:
`replay_prints_same_lines`.
-/

namespace DiceNotation

open Text (Numeral)

/-! ## §1 Rolling the printed terms -/

/-- What was rolled for an expression is rolled again for the canonical notation of its terms,
by either grammar. -/
theorem Roller.rollText_canonical {σ : Type} {r : Roller σ} {s : σ} {grammar : Grammar}
    {expression : String} {tally : Tally}
    (h : (r.rollText grammar expression s).answer = some (.ok tally)) (grammar' : Grammar) :
    (r.rollText grammar' tally.canonical s).answer =
      some (.ok ⟨tally.canonical, tally.outcomes⟩) := by
  obtain ⟨-, terms, s', hparse, hrolls⟩ := answer_rollText_eq_ok_iff.mp h
  have hcanonical : tally.canonical = canonicalText terms := by
    rw [Tally.canonical, hrolls.map_term]
  have hparse' : grammar'.parse tally.canonical = .ok terms := by
    rw [hcanonical]
    exact parse_canonicalText (Grammar.ne_nil_of_parse hparse) grammar'
  exact answer_rollText_eq_ok_iff.mpr ⟨rfl, terms, s', hparse', hrolls⟩

theorem rollSeeded_eq_ok_iff {grammar : Grammar} {seed : UInt64} {expression : String}
    {tally : Tally} : rollSeeded grammar seed expression = .ok tally ↔
      (Roller.seeded.rollText grammar expression ⟨seed⟩).answer = some (.ok tally) := by
  rw [Option.eq_some_iff_get_eq, rollSeeded]
  exact ⟨fun h => ⟨_, h⟩, fun ⟨_, h⟩ => h⟩

/-- There is a term in an expression that was rolled. -/
theorem outcomes_ne_nil_of_rollSeeded {grammar : Grammar} {seed : UInt64} {expression : String}
    {tally : Tally} (h : rollSeeded grammar seed expression = .ok tally) :
    tally.outcomes.map Outcome.term ≠ [] := by
  obtain ⟨-, terms, s', hparse, hrolls⟩ :=
    Roller.answer_rollText_eq_ok_iff.mp (rollSeeded_eq_ok_iff.mp h)
  rw [hrolls.map_term]
  exact Grammar.ne_nil_of_parse hparse

/-! ## §2 Lines -/

theorem Term.isNotation_of_mem_text (t : Term) : ∀ c ∈ t.text.toList, isNotation c = true := by
  intro c hc
  rw [text, String.toList_append, List.mem_append] at hc
  rcases hc with hc | hc
  · exact t.isNotation_of_mem_diceText c hc
  · exact t.isNotation_of_mem_modifierText c hc

theorem newline_notMem_canonicalText (terms : List Term) :
    '\n' ∉ (canonicalText terms).toList := by
  apply notMem_of_kind (show isNotation '\n' = false from rfl)
  rw [toList_canonicalText]
  apply forall_mem_intercalate (p := (isNotation · = true)) (List.forall_mem_singleton.mpr rfl)
  intro part hpart
  obtain ⟨t, -, rfl⟩ := List.mem_map.mp hpart
  exact t.isNotation_of_mem_text

theorem Outcome.newline_notMem_text (o : Outcome) : '\n' ∉ o.text.toList := by
  have hdice := notMem_of_kind (c := '\n') rfl o.term.isNotation_of_mem_diceText
  have hfaces := notMem_of_kind (c := '\n') rfl o.isNotation_of_mem_facesText
  have hmodifier := notMem_of_kind (c := '\n') rfl o.term.isNotation_of_mem_modifierText
  have hsubtotal := notMem_of_kind (c := '\n') rfl o.subtotal.isNotation_of_mem_text
  simp [toList_text, hdice, hfaces, hmodifier, hsubtotal]

theorem Tally.newline_notMem_breakdown (t : Tally) : '\n' ∉ t.breakdown.toList := by
  rw [toList_breakdown]
  intro hmem
  refine forall_mem_intercalate (p := (· ≠ '\n')) (by simp) ?_ '\n' hmem rfl
  intro part hpart c hc
  obtain ⟨o, -, rfl⟩ := List.mem_map.mp hpart
  exact ne_of_mem_of_not_mem hc o.newline_notMem_text

/-- Canonical notation starts with the count of its first term. -/
theorem startsDigit_canonicalText {terms : List Term} (h : terms ≠ []) :
    startsDigit (canonicalText terms).toList = true := by
  obtain ⟨t, ts, rfl⟩ := List.exists_cons_of_ne_nil h
  rw [toList_canonicalText, List.map_cons, intercalate_cons_eq_flatMap, Term.text,
    String.toList_append, List.append_assoc]
  exact t.startsDigit_diceText_append _

namespace CommandLine

/-! ## §3 Arguments of a replay -/

/-- An argument that starts with a digit is a word. -/
theorem isOptionLike_of_startsDigit {argument : String} (h : startsDigit argument.toList = true) :
    isOptionLike argument = false := by
  rw [isOptionLike]
  split
  · next hchars =>
    rw [hchars] at h
    cases h
  · rfl

/-- The decimal notation of a seed is read as this seed. -/
theorem readSeed?_toString (seed : UInt64) : readSeed? (toString seed.toNat) = some seed := by
  obtain ⟨numeral, hdigits, hvalue⟩ := exists_numeral_toString seed.toNat
  have hread : Numeral.read? numeral.digits = some (numeral, []) :=
    Numeral.read?_eq_some_iff.mpr ⟨(List.append_nil _).symm, rfl⟩
  have hplus : Sign.dropPlus numeral.digits = numeral.digits := by
    obtain ⟨c, cs, hcons, hc⟩ := numeral.exists_digits_eq_cons
    rw [hcons]
    apply Sign.dropPlus_cons_of_ne
    rintro rfl
    cases hc
  have hbound : seed.toNat ≤ UInt64.size - 1 := Nat.le_sub_one_of_lt seed.toNat_lt
  rw [readSeed?, ← hdigits, hplus, hread]
  simp only [Numeral.upTo?_eq, hvalue, if_pos hbound, Option.map_some, UInt64.ofNat_toNat]

/-- The options of a replay: either grammar, the seed, and the printed terms as the only word. -/
def Options.replay (strict : Bool) (seed : UInt64) (terms : String) : Options where
  strict := strict
  seed := some seed
  words := [terms]

/-- The arguments of a replay. -/
def replayArguments (strict : Bool) (seed : UInt64) (terms : String) : List String :=
  (if strict then ["--strict"] else []) ++ ["--seed", toString seed.toNat, terms]

theorem ofArguments_replayArguments (strict : Bool) (seed : UInt64) {terms : String}
    (h : startsDigit terms.toList = true) :
    Request.ofArguments (replayArguments strict seed terms) =
      .roll (.replay strict seed terms) := by
  have hseed := readSeed?_toString seed
  have hterms := isOptionLike_of_startsDigit h
  apply Understood.readArguments_eq
  cases strict with
  | false =>
    show Understood (["--seed", toString seed.toNat] ++ ([terms] ++ [])) _ _
    exact .reads (.seed rfl hseed) (.reads (.word hterms) (.done _))
  | true =>
    show Understood (["--strict"] ++ (["--seed", toString seed.toNat] ++ ([terms] ++ []))) _ _
    exact .reads (.strict rfl) (.reads (.seed rfl hseed) (.reads (.word hterms) (.done _)))

/-! ## §4 Replays -/

/-- What is printed about an expression that was rolled. -/
def fourLines (expression terms breakdown total : String) : String :=
  "Input: " ++ expression ++ "\n" ++
  "Terms: " ++ terms ++ "\n" ++
  "Breakdown: " ++ breakdown ++ "\n" ++
  "Total: " ++ total ++ "\n"

theorem rolled_ok (tally : Tally) : rolled (.ok tally) = { code := 0, stdout := report tally } :=
  rfl

theorem report_eq_fourLines (tally : Tally) : report tally =
    fourLines tally.expression tally.canonical tally.breakdown tally.total.text :=
  rfl

theorem Exit.behind_empty (exit : Exit) : exit.behind "" = exit := by
  rw [behind, String.empty_append]

/-- Nobody is asked for an expression that is given in words. -/
theorem Options.prompt_of_words {options : Options} (h : options.words ≠ []) (terminal : Bool) :
    options.prompt terminal = "" := by
  have hempty : options.words.isEmpty = false := List.isEmpty_eq_false_iff.mpr h
  rw [prompt, hempty]
  rfl

/-- An invocation that rolls or checks an expression asks for it and answers. -/
theorem run_of_roll {arguments : List String} {options : Options}
    (h : Request.ofArguments arguments = .roll options) (input : StandardInput) (fresh : UInt64) :
    run arguments input fresh =
      (options.answer input.bytes fresh).behind (options.prompt input.terminal) := by
  rw [run, h]
  rfl

namespace Options

variable {options : Options} {bytes : List UInt8} {fresh : UInt64}

/-- Without `--check`, an answer that succeeds is about an expression that was rolled. -/
theorem exists_tally_of_code_eq_zero (hcheck : options.check = false)
    (h : (options.answer bytes fresh).code = 0) :
    ∃ expression tally, options.expression? bytes = some expression ∧
      rollSeeded options.grammar (options.seed.getD fresh) expression = .ok tally := by
  cases hexpression : options.expression? bytes with
  | none => simp [answer, hexpression] at h
  | some expression =>
    cases hrolled : rollSeeded options.grammar (options.seed.getD fresh) expression with
    | ok tally => exact ⟨expression, tally, rfl, hrolled⟩
    | error error =>
      simp only [answer, hexpression, hcheck, hrolled] at h
      cases error <;> cases h

theorem answer_of_rollSeeded (hcheck : options.check = false) {expression : String} {tally : Tally}
    (hexpression : options.expression? bytes = some expression)
    (hrolled : rollSeeded options.grammar (options.seed.getD fresh) expression = .ok tally) :
    options.answer bytes fresh = { code := 0, stdout := report tally } := by
  rw [answer, hexpression]
  simp [hcheck, hrolled, rolled_ok]

/-- Printed terms are answered with a report of the outcomes that they had. -/
theorem answer_replay (bytes : List UInt8) (fresh : UInt64) (strict : Bool) {seed : UInt64}
    {grammar : Grammar} {expression : String} {tally : Tally}
    (h : rollSeeded grammar seed expression = .ok tally) :
    (replay strict seed tally.canonical).answer bytes fresh =
      { code := 0, stdout := report ⟨tally.canonical, tally.outcomes⟩ } :=
  answer_of_rollSeeded rfl rfl
    (rollSeeded_eq_ok_iff.mpr (Roller.rollText_canonical (rollSeeded_eq_ok_iff.mp h) _))

end Options

/-- The terms that were printed with a seed are rolled again: they are one word, and with this
seed the same lines are printed about them, by either grammar. -/
structure Replays (seed : UInt64) (terms breakdown total : String) : Prop where
  /-- Each of them is one line. -/
  lines : ∀ line ∈ [terms, breakdown, total], '\n' ∉ line.toList
  /-- The arguments of a replay are understood. -/
  understood : ∀ strict,
    Request.ofArguments (replayArguments strict seed terms) = .roll (.replay strict seed terms)
  /-- Whatever the arguments are, if they ask for a replay the lines are the same. -/
  same_lines : ∀ strict arguments input fresh,
    Request.ofArguments arguments = .roll (.replay strict seed terms) →
      run arguments input fresh =
        { code := 0, stdout := fourLines terms terms breakdown total }

theorem replays_of_rollSeeded {grammar : Grammar} {seed : UInt64} {expression : String}
    {tally : Tally} (h : rollSeeded grammar seed expression = .ok tally) :
    Replays seed tally.canonical tally.breakdown tally.total.text where
  lines := by
    intro line hline
    simp only [List.mem_cons, List.not_mem_nil, or_false] at hline
    rcases hline with rfl | rfl | rfl
    · exact newline_notMem_canonicalText _
    · exact tally.newline_notMem_breakdown
    · exact notMem_of_kind rfl tally.total.isNotation_of_mem_text
  understood := by
    intro strict
    apply ofArguments_replayArguments
    exact startsDigit_canonicalText (outcomes_ne_nil_of_rollSeeded h)
  same_lines := by
    intro strict arguments input fresh hoptions
    have hwords : (Options.replay strict seed tally.canonical).words ≠ [] := List.cons_ne_nil _ _
    rw [run_of_roll hoptions, Options.prompt_of_words hwords, Exit.behind_empty]
    exact Options.answer_replay input.bytes fresh strict h

/-- **The printed terms are a faithful replay.** If an invocation with a seed rolls an expression,
then an invocation with this seed and the terms that were printed as its only word, by either
grammar, prints the same lines about the same terms. -/
theorem replay_prints_same_lines {arguments : List String} {options : Options} {seed : UInt64}
    {input : StandardInput} {fresh : UInt64}
    (hoptions : Request.ofArguments arguments = .roll options) (hseed : options.seed = some seed)
    (hcheck : options.check = false) (hcode : (run arguments input fresh).code = 0) :
    ∃ expression terms breakdown total : String,
      options.expression? input.bytes = some expression ∧
        (run arguments input fresh).stdout =
          options.prompt input.terminal ++ fourLines expression terms breakdown total ∧
          Replays seed terms breakdown total := by
  have hrun := run_of_roll hoptions input fresh
  rw [hrun] at hcode
  obtain ⟨expression, tally, hexpression, hrolled⟩ :=
    Options.exists_tally_of_code_eq_zero hcheck hcode
  have hstdout : (run arguments input fresh).stdout =
      options.prompt input.terminal ++ report tally := by
    rw [hrun, Options.answer_of_rollSeeded hcheck hexpression hrolled]
    rfl
  obtain ⟨rfl, -⟩ := Roller.answer_rollText_eq_ok_iff.mp (rollSeeded_eq_ok_iff.mp hrolled)
  rw [hseed] at hrolled
  exact ⟨tally.expression, _, _, _, hexpression, hstdout, replays_of_rollSeeded hrolled⟩

/-- Unquoted words with an aside between the terms. -/
theorem replay_prints_same_lines_of_words :
    let arguments := ["--seed=7", "2D6", "with", "luck", "+", "d20"]
    let options : Options := { seed := some 7, words := ["2D6", "with", "luck", "+", "d20"] }
    let input : StandardInput := ([] : List UInt8)
    Request.ofArguments arguments = .roll options ∧ (run arguments input 0).code = 0 ∧
      ∃ expression terms breakdown total : String,
        options.expression? [] = some expression ∧
          (run arguments input 0).stdout =
            options.prompt false ++ fourLines expression terms breakdown total ∧
            Replays 7 terms breakdown total := by
  intro arguments options input
  have hoptions : Request.ofArguments arguments = .roll options := by decide +kernel
  have hcode : (run arguments input 0).code = 0 := by decide +kernel
  exact ⟨hoptions, hcode, replay_prints_same_lines hoptions rfl rfl hcode⟩

end CommandLine

end DiceNotation
