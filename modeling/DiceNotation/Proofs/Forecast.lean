import DiceNotation.Proofs.Arguments
import DiceNotation.Proofs.Replay

/-!
# What a Check Foretells

An expression is accepted iff every roller that does not run out has a tally for it
(`accepts_iff_forall_unfailing`), and whether there is a tally does not depend on the faces.
So `--check` foretells what rolling does: wherever it is put among the arguments of an
invocation, the exit code stays the same. Main statement: `check_foretells_rolling`.
-/

namespace DiceNotation

variable {σ : Type}

/-! ## §1 Accepted expressions -/

theorem Grammar.accepts_iff {grammar : Grammar} {text : String} :
    grammar.accepts text = true ↔ ∃ terms, grammar.parse text = .ok terms := by
  rw [accepts]
  cases grammar.parse text with
  | ok terms => simp
  | error error => simp

namespace Roller

/-- A call that does not run out has a tally iff the expression is accepted. -/
theorem exists_tally_iff_accepts {r : Roller σ} {grammar : Grammar} {text : String} {s : σ}
    (h : (r.rollText grammar text s).answer.isSome) :
    (∃ tally, (r.rollText grammar text s).answer = some (.ok tally)) ↔
      grammar.accepts text = true := by
  rw [Grammar.accepts_iff]
  constructor
  · rintro ⟨tally, htally⟩
    obtain ⟨-, terms, -, hparse, -⟩ := answer_rollText_eq_ok_iff.mp htally
    exact ⟨terms, hparse⟩
  · rintro ⟨terms, hparse⟩
    obtain ⟨outcomes, s', hrolls | hout⟩ := r.rolls_or_runsOut s terms
    · exact ⟨⟨text, outcomes⟩, answer_rollText_eq_ok_iff.mpr ⟨rfl, terms, s', hparse, hrolls⟩⟩
    · rw [hout.rollText_eq hparse] at h
      cases h

theorem highest_unfailing : highest.Unfailing :=
  fun _ _ => rfl

end Roller

/-- An expression is accepted iff every roller that never runs out has a tally for it. -/
theorem accepts_iff_forall_unfailing {grammar : Grammar} {text : String} :
    grammar.accepts text = true ↔
      ∀ (σ : Type) (r : Roller σ) (s : σ), r.Unfailing →
        ∃ tally, (r.rollText grammar text s).answer = some (.ok tally) := by
  refine ⟨fun haccepts σ r s hr => ?_, fun hall => ?_⟩
  · exact (Roller.exists_tally_iff_accepts (hr.isSome_rollText grammar text s)).mpr haccepts
  · -- One such roller is enough
    have hr := Roller.highest_unfailing
    exact (Roller.exists_tally_iff_accepts (hr.isSome_rollText grammar text ())).mp
      (hall Unit .highest () hr)

theorem exists_rollSeeded_iff_accepts {grammar : Grammar} {seed : UInt64} {text : String} :
    (∃ tally, rollSeeded grammar seed text = .ok tally) ↔ grammar.accepts text = true := by
  simp only [rollSeeded_eq_ok_iff]
  exact Roller.exists_tally_iff_accepts
    (Roller.seeded_unfailing.isSome_rollText grammar text ⟨seed⟩)

namespace CommandLine

/-! ## §2 Exits -/

/-- An expression that is refused is answered with a complaint only. -/
theorem rolled_error (error : NotationError) :
    (rolled (.error error)).code = 1 ∧ (rolled (.error error)).stdout = "" := by
  cases error <;> exact ⟨rfl, rfl⟩

/-- What an invocation answers with `--check`, beside what it does without. Both print the same
prompt before. -/
structure Foretells (options : Options) (input : StandardInput) (checking rolling : Exit) :
    Prop where
  code_eq : checking.code = rolling.code
  /-- The expression is said to be valid iff it is rolled. -/
  valid_iff : checking.stdout = options.prompt input.terminal ++ "valid\n" ↔ rolling.code = 0
  /-- It is said to be invalid iff it is read but not accepted. -/
  invalid_iff : checking.stdout = options.prompt input.terminal ++ "invalid\n" ↔
    ∃ expression, options.expression? input.bytes = some expression ∧
      options.grammar.accepts expression = false
  /-- What is rolled is printed in four lines and nothing else. -/
  succeeded : rolling.code = 0 →
    ∃ tally : Tally, options.expression? input.bytes = some tally.expression ∧
      rolling.stdout = options.prompt input.terminal ++
        fourLines tally.expression tally.canonical tally.breakdown tally.total.text ∧
      rolling.complaint.text = ""
  /-- What is not rolled prints nothing more. -/
  failed : rolling.code ≠ 0 → rolling.stdout = options.prompt input.terminal

namespace Options

variable {options : Options} {bytes : List UInt8}

/-- A line that is not UTF-8 is answered in one way only. -/
theorem answer_of_expression?_eq_none (h : options.expression? bytes = none) (fresh : UInt64) :
    (options.answer bytes fresh).code = 1 ∧ (options.answer bytes fresh).stdout = "" := by
  rw [answer, h]
  exact ⟨rfl, rfl⟩

theorem answer_of_refused (hcheck : options.check = false) {expression : String}
    (hexpression : options.expression? bytes = some expression)
    (hrefused : options.grammar.accepts expression = false) (fresh : UInt64) :
    (options.answer bytes fresh).code = 1 ∧ (options.answer bytes fresh).stdout = "" := by
  rw [answer, hexpression]
  simp only [hcheck, Bool.false_eq_true, if_false]
  cases hrolled : rollSeeded options.grammar (options.seed.getD fresh) expression with
  | ok tally =>
    rw [exists_rollSeeded_iff_accepts.mp ⟨tally, hrolled⟩] at hrefused
    cases hrefused
  | error error => exact rolled_error error

theorem answer_withCheck {expression : String} (h : options.expression? bytes = some expression)
    (fresh : UInt64) : { options with check := true }.answer bytes fresh =
      checked (options.grammar.accepts expression) := by
  have hexpression : { options with check := true }.expression? bytes = some expression := h
  rw [answer, hexpression]
  rfl

/-- The three ways of an answer: the expression is not read, refused or rolled. -/
theorem foretells_answer (hcheck : options.check = false) (input : StandardInput)
    (fresh fresh' : UInt64) :
    Foretells options input
      (({ options with check := true }.answer input.bytes fresh).behind
        (options.prompt input.terminal))
      ((options.answer input.bytes fresh').behind (options.prompt input.terminal)) := by
  cases hexpression : options.expression? input.bytes with
  | none =>
    have hunread : { options with check := true }.expression? input.bytes = none := hexpression
    obtain ⟨hcode, hstdout⟩ := answer_of_expression?_eq_none hunread fresh
    obtain ⟨hcode', hstdout'⟩ := answer_of_expression?_eq_none hexpression fresh'
    -- The prompt alone says nothing about validity
    have hsilent (word : String) (hword : word ≠ "") :
        options.prompt input.terminal ≠ options.prompt input.terminal ++ word :=
      fun heq => hword (String.append_eq_left_iff.mp heq.symm)
    constructor <;> simp [hcode, hcode', hstdout, hstdout', hexpression, hsilent]
  | some expression =>
    rw [answer_withCheck hexpression]
    cases haccepts : options.grammar.accepts expression with
    | false =>
      obtain ⟨hcode, hstdout⟩ := answer_of_refused hcheck hexpression haccepts fresh'
      constructor <;> simp [checked, hcode, hstdout, hexpression, haccepts]
    | true =>
      obtain ⟨tally, htally⟩ : ∃ tally,
          rollSeeded options.grammar (options.seed.getD fresh') expression = .ok tally :=
        exists_rollSeeded_iff_accepts.mpr haccepts
      have hanswer := answer_of_rollSeeded hcheck hexpression htally
      obtain ⟨rfl, -⟩ := Roller.answer_rollText_eq_ok_iff.mp (rollSeeded_eq_ok_iff.mp htally)
      rw [hanswer]
      exact
        { code_eq := rfl
          valid_iff := by simp [checked]
          invalid_iff := by simp [checked, hexpression, haccepts]
          succeeded := fun _ => ⟨tally, hexpression, rfl, rfl⟩
          failed := fun hcode => absurd rfl hcode }

end Options

/-! ## §3 Invocations -/

/-- **A check foretells rolling.** If `--check` is put anywhere among the arguments of an invocation
that rolls an expression, the exit code is the same and the answer says which it is, whatever the
draws are; before it both ask for the expression if a person types it. And an expression is accepted
iff every roller that never runs out has a tally for it; no single answer of any roller says
otherwise. -/
theorem check_foretells_rolling :
    (∀ (before after : List String) (options : Options),
      Request.ofArguments (before ++ after) = .roll options → options.check = false →
      "--" ∉ before → before.getLast? ≠ some "--seed" →
        ∀ (input : StandardInput) (fresh fresh' : UInt64),
          Foretells options input (run (before ++ "--check" :: after) input fresh)
            (run (before ++ after) input fresh')) ∧
    ∀ text : String,
      (Grammar.lenient.accepts text = true ↔
        ∀ (σ : Type) (r : Roller σ) (s : σ), r.Unfailing →
          ∃ tally, (r.rollText .lenient text s).answer = some (.ok tally)) ∧
      ∀ (σ : Type) (r : Roller σ) (s : σ), (r.rollText .lenient text s).answer.isSome →
        ((∃ tally, (r.rollText .lenient text s).answer = some (.ok tally)) ↔
          Grammar.lenient.accepts text = true) := by
  refine ⟨?_, fun text => ⟨accepts_iff_forall_unfailing, fun σ r s h => ?_⟩⟩
  · intro before after options hoptions hcheck hdelimiter hseed input fresh fresh'
    have hunderstood := readArguments_eq_roll_iff.mp hoptions
    have hchecking : Request.ofArguments (before ++ "--check" :: after) =
        .roll { options with check := true } :=
      (hunderstood.insert_check hcheck hdelimiter hseed).readArguments_eq
    rw [run_of_roll hoptions, run_of_roll hchecking]
    exact options.foretells_answer hcheck input fresh fresh'
  · exact Roller.exists_tally_iff_accepts h

/-- A check of words that only the other grammar would accept, put in front of the seed. -/
theorem check_foretells_rolling_of_words :
    let arguments := ["--strict", "2d6", "and", "--seed=7", "--", "--d4"]
    let options : Options :=
      { strict := true, seed := some 7, words := ["2d6", "and", "--d4"] }
    let input : StandardInput := { bytes := [], terminal := true }
    Request.ofArguments arguments = .roll options ∧
      Grammar.lenient.accepts "2d6 and --d4" = true ∧
      Foretells options input
        (run ["--strict", "2d6", "and", "--check", "--seed=7", "--", "--d4"] input 0)
        (run arguments input 1) := by
  intro arguments options input
  have hoptions : Request.ofArguments (["--strict", "2d6", "and"] ++ ["--seed=7", "--", "--d4"]) =
      .roll options := by decide +kernel
  refine ⟨hoptions, by decide +kernel, ?_⟩
  exact check_foretells_rolling.1 ["--strict", "2d6", "and"] ["--seed=7", "--", "--d4"] options
    hoptions rfl (by decide) (by decide) input 0 1

theorem helpText_ne_fourLines (expression terms breakdown total : String) :
    helpText ≠ fourLines expression terms breakdown total := by
  intro h
  -- They start with different letters
  have hdescription : description.toList.head? = some 'T' := by decide +kernel
  have hinput : "Input: ".toList.head? = some 'I' := by decide +kernel
  delta helpText fourLines at h
  simp only [String.append_assoc] at h
  have hfirst := congrArg (fun text : String => text.toList.head?) h
  simp only [String.toList_append, List.head?_append, hdescription, hinput, Option.some_or] at hfirst
  cases hfirst

/-- The help is no four lines, and nothing is said about validity if it is asked for with
`--check`. A line that is typed is answered behind a prompt, also if it is refused. And behind `--`
the option is a word. -/
theorem not_foretold_of_help_or_prompt_or_word :
    let piped : StandardInput := ([] : List UInt8)
    let typed : StandardInput := { bytes := [120, 10], terminal := true }
    (Request.ofArguments ["--help"] ≠ .misused ∧ Request.ofArguments ["--help"] ≠ .version ∧
      (run ["--help"] piped 0).code = 0 ∧
      (∀ expression terms breakdown total,
        (run ["--help"] piped 0).stdout ≠ fourLines expression terms breakdown total) ∧
      (run ["--check", "--help"] piped 0).code = 0 ∧
      (run ["--check", "--help"] piped 0).stdout ≠ "valid\n") ∧
    ((run [] typed 0).code = 1 ∧ (run [] typed 0).stdout = "Enter dice expression: " ∧
      (run ["--check"] typed 0).stdout = "Enter dice expression: invalid\n") ∧
    ((run ["--", "d1"] piped 0).code = 0 ∧
      (run ["--", "d1", "--check"] piped 0).stdout =
        fourLines "d1 --check" "1d1" "1d1: [1] = 1" "1") := by
  intro piped typed
  have hhelp : (run ["--help"] piped 0).stdout = helpText := String.empty_append
  refine ⟨⟨by decide +kernel, by decide +kernel, by decide +kernel, ?_, by decide +kernel,
    by decide +kernel⟩, ⟨by decide +kernel, by decide +kernel, by decide +kernel⟩,
    by decide +kernel, by decide +kernel⟩
  intro expression terms breakdown total
  rw [hhelp]
  exact helpText_ne_fourLines expression terms breakdown total

end CommandLine

end DiceNotation
