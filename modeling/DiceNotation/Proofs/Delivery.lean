import DiceNotation.Proofs.Arguments
import DiceNotation.Proofs.Normal
import DiceNotation.Proofs.Replay

/-!
# Ways to Give an Expression

Of an expression nothing matters but its normal form, and it is echoed
(`rollSeeded_of_normalize_eq`). Words may be cut anywhere (`normalize_intercalate_of_spaced`), and
a line of standard input is the text that it encodes, whatever follows it
(`firstLine?_of_startsWithLine`). So an invocation answers the same however the expression is given,
behind a prompt if it is typed. Main statement: `same_answer_however_given`.
-/

namespace DiceNotation

open Text (Spaced normalize normalizeChars)

/-! ## §1 One normal form -/

namespace Grammar

variable {text text' : String}

theorem parse_of_normalize_eq (h : normalize text = normalize text') (grammar : Grammar) :
    grammar.parse text = grammar.parse text' := by
  rw [parse, parse, h]

theorem accepts_of_normalize_eq (h : normalize text = normalize text') (grammar : Grammar) :
    grammar.accepts text = grammar.accepts text' := by
  rw [accepts, accepts, parse_of_normalize_eq h]

end Grammar

/-- A tally of another expression. -/
def Tally.withExpression (t : Tally) (expression : String) : Tally :=
  { t with expression := expression }

/-- Expressions of one normal form are rolled alike. -/
theorem Roller.answer_rollText_of_normalize_eq {σ : Type} (r : Roller σ) (grammar : Grammar)
    {text text' : String} (h : normalize text = normalize text') (s : σ) :
    (r.rollText grammar text' s).answer =
      (r.rollText grammar text s).answer.map (Except.map (Tally.withExpression · text')) := by
  have hparse := grammar.parse_of_normalize_eq h
  cases hterms : grammar.parse text with
  | error error =>
    rw [r.rollText_of_parse_eq_error hterms, r.rollText_of_parse_eq_error (hparse ▸ hterms)]
    rfl
  | ok terms =>
    obtain ⟨outcomes, s', hrolls | hout⟩ := r.rolls_or_runsOut s terms
    · rw [hrolls.rollText_eq hterms, hrolls.rollText_eq (hparse ▸ hterms)]
      rfl
    · rw [hout.rollText_eq hterms, hout.rollText_eq (hparse ▸ hterms)]
      rfl

theorem some_rollSeeded (grammar : Grammar) (seed : UInt64) (text : String) :
    some (rollSeeded grammar seed text) = (Roller.seeded.rollText grammar text ⟨seed⟩).answer :=
  Option.some_get _

theorem rollSeeded_of_normalize_eq {text text' : String} (h : normalize text = normalize text')
    (grammar : Grammar) (seed : UInt64) :
    rollSeeded grammar seed text' =
      (rollSeeded grammar seed text).map (Tally.withExpression · text') := by
  apply Option.some.inj
  rw [some_rollSeeded, Roller.answer_rollText_of_normalize_eq _ _ h, ← some_rollSeeded]
  rfl

/-! ## §2 Words -/

namespace Text

theorem Spaced.append {cs ds cs' ds' : List Char} (h : Spaced cs ds) (h' : Spaced cs' ds') :
    Spaced (cs ++ cs') (ds ++ ds') := by
  induction h with
  | nil => exact h'
  | space hc _ ih => exact .space hc ih
  | keep c _ ih => exact .keep c ih

theorem spaced_intercalate (words : List String) :
    Spaced (words.flatMap String.toList) (" ".intercalate words).toList := by
  rw [String.toList_intercalate]
  induction words with
  | nil => exact .nil
  | cons word words ih =>
    cases words with
    | nil =>
      simp only [List.flatMap_cons, List.flatMap_nil, List.append_nil, List.map_cons, List.map_nil,
        List.intercalate_singleton]
      exact .refl word.toList
    | cons next words =>
      rw [List.flatMap_cons, List.map_cons, List.map_cons, List.intercalate_cons_cons,
        List.append_assoc]
      exact (Spaced.refl word.toList).append (.space rfl ih)

/-- However a text is cut into words, they are the same expression. -/
theorem normalize_intercalate_of_spaced {words : List String} {text : String}
    (h : Spaced (words.flatMap String.toList) text.toList) :
    normalize (" ".intercalate words) = normalize text := by
  rw [normalize, normalize, normalizeChars_eq_of_spaced h,
    normalizeChars_eq_of_spaced (spaced_intercalate words)]

/-! ## §3 Lines -/

theorem dropWhiteSpace_dropWhile (cs : List Char) :
    dropWhiteSpace (cs.dropWhile isWhiteSpace) = dropWhiteSpace cs := by
  induction cs with
  | nil => rfl
  | cons c cs ih =>
    by_cases hc : isWhiteSpace c = true
    · rw [List.dropWhile_cons_of_pos hc, ih]
      simp [dropWhiteSpace, hc]
    · rw [List.dropWhile_cons_of_neg hc]

/-- White space at the end of a text does not matter. -/
theorem normalize_trimEnd (text : String) : normalize (trimEnd text) = normalize text := by
  have hdrop (cs : List Char) :
      dropWhiteSpace (cs.reverse.dropWhile isWhiteSpace).reverse = dropWhiteSpace cs := by
    have hreverse (ds : List Char) : dropWhiteSpace ds.reverse = (dropWhiteSpace ds).reverse :=
      List.filter_reverse
    rw [hreverse, dropWhiteSpace_dropWhile, hreverse, List.reverse_reverse]
  rw [normalize, normalize, trimEnd, String.toList_ofList, normalizeChars, hdrop, normalizeChars]

/-- The bytes of a text in UTF-8. -/
def utf8 (text : String) : List UInt8 :=
  text.toUTF8.data.toList

theorem utf8_eq_flatMap (text : String) :
    utf8 text = text.toList.flatMap String.utf8EncodeChar := by
  have hbytes : text.toUTF8 = text.toList.utf8Encode := by
    rw [String.toUTF8_eq_toByteArray, ← String.toByteArray_ofList, String.ofList_toList]
  rw [utf8, hbytes, List.utf8Encode, List.toList_data_toByteArray]

/-- The byte of a newline is part of no other character. -/
theorem newline_notMem_utf8EncodeChar {c : Char} (hc : c ≠ '\n') :
    (10 : UInt8) ∉ String.utf8EncodeChar c := by
  have hval : c.val.toNat ≠ 10 := by
    intro h
    exact hc (Char.ext (UInt32.toNat_inj.mp h))
  intro hmem
  have hbyte : ∃ b ∈ String.utf8EncodeChar c, b.toNat = 10 := ⟨10, hmem, rfl⟩
  -- Alone the character is its byte, and no byte of several is that small
  revert hbyte
  fun_cases String.utf8EncodeChar c <;> simp <;> omega

theorem newline_notMem_utf8 {text : String} (h : '\n' ∉ text.toList) :
    (10 : UInt8) ∉ utf8 text := by
  rw [utf8_eq_flatMap, List.mem_flatMap]
  rintro ⟨c, hc, hmem⟩
  exact newline_notMem_utf8EncodeChar (ne_of_mem_of_not_mem hc h) hmem

theorem fromUTF8?_utf8 (text : String) :
    String.fromUTF8? (utf8 text).toByteArray = some text := by
  have hbytes : (utf8 text).toByteArray = text.toByteArray := by
    apply ByteArray.ext
    simp [utf8]
  rw [hbytes, String.fromUTF8?, dif_pos text.isValidUTF8]
  rfl

end Text

namespace CommandLine

/-- The first line of some bytes is this text: it ends with them or at a newline. -/
def StartsWithLine (input : List UInt8) (text : String) : Prop :=
  input = Text.utf8 text ∨ ∃ more, input = Text.utf8 text ++ 10 :: more

/-- The first line is read, whatever follows it. -/
theorem firstLine?_of_startsWithLine {text : String} (h : '\n' ∉ text.toList)
    {input : List UInt8} (hinput : StartsWithLine input text) :
    firstLine? input = some (Text.trimEnd text) := by
  have hline : ∀ byte ∈ Text.utf8 text, decide (byte ≠ 10) = true := by
    intro byte hbyte
    exact decide_eq_true (ne_of_mem_of_not_mem hbyte (Text.newline_notMem_utf8 h))
  obtain ⟨behind, rfl, hbehind⟩ :
      ∃ behind, input = Text.utf8 text ++ behind ∧ behind.takeWhile (· ≠ 10) = [] := by
    rcases hinput with rfl | ⟨more, rfl⟩
    · exact ⟨[], (List.append_nil _).symm, rfl⟩
    · exact ⟨10 :: more, rfl, rfl⟩
  rw [firstLine?, List.takeWhile_append_of_pos hline, hbehind, List.append_nil,
    Text.fromUTF8?_utf8]
  rfl

theorem Options.expression?_of_words {options : Options} (h : options.words ≠ [])
    (bytes : List UInt8) : options.expression? bytes = some (" ".intercalate options.words) := by
  rw [expression?]
  split
  · next hnil => exact absurd hnil h
  · rfl

/-! ## §4 Answers -/

/-- Exits that are the same but for the expression that is echoed and what is printed before. -/
structure SameBut (asked asked' expression expression' : String) (exit exit' : Exit) : Prop where
  code_eq : exit.code = exit'.code
  complaint_eq : exit.complaint = exit'.complaint
  stdout_eq : (∃ answer, exit.stdout = asked ++ answer ∧ exit'.stdout = asked' ++ answer) ∨
    ∃ terms breakdown total, exit.stdout = asked ++ fourLines expression terms breakdown total ∧
      exit'.stdout = asked' ++ fourLines expression' terms breakdown total

theorem SameBut.behind {asked asked' expression expression' : String} (exit : Exit) :
    SameBut asked asked' expression expression' (exit.behind asked) (exit.behind asked') :=
  ⟨rfl, rfl, .inl ⟨exit.stdout, rfl, rfl⟩⟩

theorem Options.sameBut_answer {options : Options} {words : List String} {bytes bytes' : List UInt8}
    {expression expression' : String} (h : options.expression? bytes = some expression)
    (h' : { options with words := words }.expression? bytes' = some expression')
    (hnormal : normalize expression = normalize expression') (fresh : UInt64)
    (asked asked' : String) :
    SameBut asked asked' expression expression' ((options.answer bytes fresh).behind asked)
      (({ options with words := words }.answer bytes' fresh).behind asked') := by
  have hgrammar : { options with words := words }.grammar = options.grammar := rfl
  rw [answer, answer, h, h', hgrammar]
  cases options.check with
  | true =>
    simp only [if_true, Grammar.accepts_of_normalize_eq hnormal]
    exact .behind _
  | false =>
    simp only [Bool.false_eq_true, if_false, rollSeeded_of_normalize_eq hnormal]
    cases hrolled : rollSeeded options.grammar (options.seed.getD fresh) expression with
    | error error => exact .behind _
    | ok tally =>
      obtain ⟨rfl, -⟩ := Roller.answer_rollText_eq_ok_iff.mp (rollSeeded_eq_ok_iff.mp hrolled)
      have hreport := report_eq_fourLines tally
      have hreport' := report_eq_fourLines (tally.withExpression expression')
      exact
        { code_eq := by simp only [Except.map, rolled_ok, Exit.code_behind]
          complaint_eq := by simp only [Except.map, rolled_ok, Exit.complaint_behind]
          stdout_eq := .inr ⟨_, _, _, congrArg (asked ++ ·) hreport,
            congrArg (asked' ++ ·) hreport'⟩ }

/-! ## §5 Invocations -/

theorem sameBut_run {arguments arguments' : List String} {options : Options} {words : List String}
    (h : Request.ofArguments arguments = .roll options)
    (h' : Request.ofArguments arguments' = .roll { options with words := words })
    {input input' : StandardInput} {expression expression' : String}
    (hread : options.expression? input.bytes = some expression)
    (hread' : { options with words := words }.expression? input'.bytes = some expression')
    (hnormal : normalize expression = normalize expression') (fresh : UInt64) :
    SameBut (options.prompt input.terminal) ({ options with words := words }.prompt input'.terminal)
      expression expression' (run arguments input fresh) (run arguments' input' fresh) := by
  rw [run_of_roll h, run_of_roll h']
  exact Options.sameBut_answer hread hread' hnormal fresh _ _

/-- **It does not matter how an expression is given.** Invocations with the same options and
expressions of one normal form answer the same but for the expression that is echoed, each behind
the prompt for what is typed. So a text may be cut into words anywhere where they are taken for
words; and it may be the words behind `--`, cut anywhere at all, or the first line of standard
input. -/
theorem same_answer_however_given :
    (∀ (arguments arguments' : List String) (options : Options) (words : List String),
      Request.ofArguments arguments = .roll options →
      Request.ofArguments arguments' = .roll { options with words := words } →
        ∀ (input input' : StandardInput) (expression expression' : String),
          options.expression? input.bytes = some expression →
          { options with words := words }.expression? input'.bytes = some expression' →
          normalize expression = normalize expression' →
            ∀ fresh, SameBut (options.prompt input.terminal)
              ({ options with words := words }.prompt input'.terminal) expression expression'
              (run arguments input fresh) (run arguments' input' fresh)) ∧
    (∀ (arguments arguments' : List String) (options : Options) (words : List String),
      Request.ofArguments arguments = .roll options → options.words ≠ [] →
      Request.ofArguments arguments' = .roll { options with words := words } → words ≠ [] →
        ∀ text : String, Spaced (options.words.flatMap String.toList) text.toList →
          Spaced (words.flatMap String.toList) text.toList →
            ∀ input input' fresh,
              SameBut "" "" (" ".intercalate options.words) (" ".intercalate words)
                (run arguments input fresh) (run arguments' input' fresh)) ∧
    ∀ (arguments : List String) (options : Options),
      Request.ofArguments arguments = .roll options → options.words = [] → "--" ∉ arguments →
        ∀ (text : String) (words : List String), words ≠ [] →
          Spaced (words.flatMap String.toList) text.toList →
            ∀ input : StandardInput, '\n' ∉ text.toList → StartsWithLine input.bytes text →
              ∀ input' fresh, SameBut (options.prompt input.terminal) "" (Text.trimEnd text)
                (" ".intercalate words) (run arguments input fresh)
                (run (arguments ++ "--" :: words) input' fresh) := by
  refine ⟨?_, ?_, ?_⟩
  · intro arguments arguments' options words h h' input input' expression expression' hread hread'
      hnormal fresh
    exact sameBut_run h h' hread hread' hnormal fresh
  · intro arguments arguments' options words h hwords h' hwords' text htext htext' input input'
      fresh
    have hread := Options.expression?_of_words hwords input.bytes
    have hread' : { options with words := words }.expression? input'.bytes =
        some (" ".intercalate words) := Options.expression?_of_words hwords' input'.bytes
    have hnormal : normalize (" ".intercalate options.words) = normalize (" ".intercalate words) := by
      rw [Text.normalize_intercalate_of_spaced htext, Text.normalize_intercalate_of_spaced htext']
    have hasked : options.prompt input.terminal = "" :=
      Options.prompt_of_words hwords input.terminal
    have hasked' : { options with words := words }.prompt input'.terminal = "" :=
      Options.prompt_of_words hwords' input'.terminal
    have hsame := sameBut_run h h' hread hread' hnormal fresh
    rwa [hasked, hasked'] at hsame
  · intro arguments options h hwords hdelimiter text words hwords' htext input hline hinput input'
      fresh
    have h' : Request.ofArguments (arguments ++ "--" :: words) = .roll (options.addWords words) :=
      ((readArguments_eq_roll_iff.mp h).delimit hdelimiter words).readArguments_eq
    rw [Options.addWords, hwords, List.nil_append] at h'
    have hread : options.expression? input.bytes = some (Text.trimEnd text) := by
      rw [Options.expression?, hwords]
      exact firstLine?_of_startsWithLine hline hinput
    have hread' : { options with words := words }.expression? input'.bytes =
        some (" ".intercalate words) := Options.expression?_of_words hwords' input'.bytes
    have hnormal : normalize (Text.trimEnd text) = normalize (" ".intercalate words) := by
      rw [Text.normalize_trimEnd, Text.normalize_intercalate_of_spaced htext]
    have hasked' : { options with words := words }.prompt input'.terminal = "" :=
      Options.prompt_of_words hwords' input'.terminal
    have hsame := sameBut_run h h' hread hread' hnormal fresh
    rwa [hasked'] at hsame

/-- A text that is cut at its spaces or elsewhere, and a line that is typed. -/
theorem same_answer_of_cut_text :
    let options : Options := { seed := some 7, words := ["2d6", "+", "3", "and", "D20"] }
    let piped : StandardInput := ([] : List UInt8)
    let typed : StandardInput := { bytes := [50, 68, 54, 13, 10, 255], terminal := true }
    Request.ofArguments ["--seed=7", "2d6", "+", "3", "and", "D20"] = .roll options ∧
      SameBut "" "" "2d6 + 3 and D20" "2 d6+3 andD20"
        (run ["--seed=7", "2d6", "+", "3", "and", "D20"] piped 0)
        (run ["2", "d6+3", "--seed", "7", "andD20"] piped 0) ∧
      SameBut "Enter dice expression: " "" "2D6" "2D6\r"
        (run ["--seed=7"] typed 0)
        (run ["--seed=7", "--", "2D6\r"] piped 0) := by
  intro options piped typed
  have hoptions : Request.ofArguments ["--seed=7", "2d6", "+", "3", "and", "D20"] =
      .roll options := by decide +kernel
  have hcut : Request.ofArguments ["2", "d6+3", "--seed", "7", "andD20"] =
      .roll { options with words := ["2", "d6+3", "andD20"] } := by decide +kernel
  have hseed : Request.ofArguments ["--seed=7"] = .roll { options with words := [] } := by
    decide +kernel
  have hspaced : Spaced "2d6+3andD20".toList "2d6 + 3 and D20".toList :=
    Text.spaced_dropWhiteSpace "2d6 + 3 and D20".toList
  have hline : StartsWithLine typed.bytes "2D6\r" := .inr ⟨[255], by decide +kernel⟩
  refine ⟨hoptions, ?_, ?_⟩
  · exact same_answer_however_given.2.1 _ _ options _ hoptions (by decide) hcut (by decide)
      "2d6 + 3 and D20" hspaced hspaced piped piped 0
  · exact same_answer_however_given.2.2 _ _ hseed rfl (by decide) "2D6\r" ["2D6\r"] (by decide)
      (.refl _) typed (by decide) hline piped 0

/-- One expression is answered behind a prompt if it is typed and without one behind `--`; and a
text that is an expression as one word is refused if it is cut where a dash comes to stand in front
of a word. -/
theorem not_same_answer_of_prompt_or_dash :
    let piped : StandardInput := ([] : List UInt8)
    let typed : StandardInput := { bytes := [100, 54, 10], terminal := true }
    (firstLine? typed.bytes = some "d6" ∧
      (run ["--check"] typed 0).stdout = "Enter dice expression: valid\n" ∧
      (run ["--check", "--", "d6"] typed 0).stdout = "valid\n") ∧
    (" ".intercalate ["3d1", "-1"] = "3d1 -1" ∧
      (run ["3d1 -1"] piped 0).stdout = fourLines "3d1 -1" "3d1-1" "3d1: [1+1+1]-1 = 2" "2" ∧
      (run ["3d1", "-1"] piped 0).code = 2 ∧ (run ["3d1", "-1"] piped 0).stdout = "") := by
  intro piped typed
  exact ⟨⟨by decide +kernel, by decide +kernel, by decide +kernel⟩, by decide +kernel,
    by decide +kernel, by decide +kernel, by decide +kernel⟩

end CommandLine

end DiceNotation
