import DiceNotation.Outcome
import DiceNotation.Proofs.Agreement
import DiceNotation.Proofs.Normal

/-!
# Ways to Write Terms

A list of terms can be written in many ways: numbers may have zeros in front, a count of
one and a modifier of zero may be left out, the letter may be a capital, and white space
may stand anywhere. Main statement: `parse_eq_of_writesAll`, both grammars read every
way to write the terms as these terms. Canonical notation is one of the ways
(`writesAll_canonicalText`), so it can be read back, and it says which terms it is about.
-/

namespace DiceNotation

open Text (Numeral Spaced normalizeChars)

/-! ## §1 Written terms -/

/-- Digits that write a number: any number of zeros may stand in front of it. -/
def WritesNumber (n : Nat) (ds : List Char) : Prop :=
  ∃ zeros : Nat, ds = List.replicate zeros '0' ++ Nat.toDigits 10 n

/-- Characters that write a number of dice. -/
inductive WritesCount : Nat → List Char → Prop where
  /-- One is left out. -/
  | omitted : WritesCount 1 []
  /-- The number is written. -/
  | written {n : Nat} {ds : List Char} : WritesNumber n ds → WritesCount n ds

/-- Characters that write a modifier. -/
inductive WritesModifier : Score → List Char → Prop where
  /-- Zero is left out. -/
  | omitted : WritesModifier 0 []
  /-- The sign and the size are written; zero goes with both signs. -/
  | written {modifier : Score} {sign : Sign} {size : Nat} {ds : List Char} :
      modifier.toInt = sign.apply size → WritesNumber size ds →
        WritesModifier modifier (sign.char :: ds)

/-- Characters that write a term. -/
inductive Writes (t : Term) : List Char → Prop where
  /-- The count, the letter, the sides and the modifier are written. -/
  | intro {count sides modifier : List Char} {letter : Char} :
      WritesCount t.count count → letter = 'd' ∨ letter = 'D' → WritesNumber t.sides sides →
        WritesModifier t.modifier modifier →
          Writes t (count ++ letter :: (sides ++ modifier))

/-- A text that writes terms: they are joined with `+`, and white space stands anywhere. -/
def WritesAll (terms : List Term) (text : String) : Prop :=
  ∃ parts : List (List Char),
    List.Forall₂ Writes terms parts ∧ Spaced (['+'].intercalate parts) text.toList

/-! ## §2 What is written is a spelling -/

theorem WritesNumber.exists_numeral {n : Nat} {ds : List Char} (h : WritesNumber n ds) :
    ∃ numeral : Numeral, numeral.digits = ds ∧ numeral.value = n := by
  obtain ⟨zeros, rfl⟩ := h
  have hdecimal : ∀ c ∈ List.replicate zeros '0' ++ Nat.toDigits 10 n, c.isDigit = true := by
    intro c hc
    rcases List.mem_append.mp hc with hzero | hdigit
    · rw [List.eq_of_mem_replicate hzero]
      rfl
    · exact Nat.isDigit_of_mem_toDigits (by decide) (by decide) hdigit
  have hnonempty : List.replicate zeros '0' ++ Nat.toDigits 10 n ≠ [] :=
    List.append_ne_nil_of_right_ne_nil _ Nat.toDigits_ne_nil
  refine ⟨⟨_, hnonempty, List.all_eq_true.mpr hdecimal⟩, rfl, ?_⟩
  -- Zeros in front leave the value as it is
  simp [Numeral.value, Nat.ofDigitChars_append]

theorem WritesCount.exists_count {n : Nat} {cs : List Char} (h : WritesCount n cs) :
    ∃ count : Option Numeral,
      (count.map Numeral.digits).getD [] = cs ∧ (count.map Numeral.value).getD 1 = n := by
  cases h with
  | omitted => exact ⟨none, rfl, rfl⟩
  | written h =>
    obtain ⟨numeral, rfl, rfl⟩ := h.exists_numeral
    exact ⟨some numeral, rfl, rfl⟩

theorem WritesModifier.exists_modifier {m : Score} {cs : List Char} (h : WritesModifier m cs) :
    ∃ modifier : Option SignedNumeral,
      (modifier.map SignedNumeral.chars).getD [] = cs ∧
        (modifier.map fun m => m.sign.apply m.size.value).getD 0 = m.toInt := by
  cases h with
  | omitted => exact ⟨none, rfl, rfl⟩
  | @written _ sign _ _ hm h =>
    obtain ⟨numeral, rfl, rfl⟩ := h.exists_numeral
    exact ⟨some ⟨sign, numeral⟩, rfl, hm.symm⟩

theorem normalizeChars_modifierChars (s : Spelling) :
    normalizeChars s.modifierChars = s.modifierChars := by
  cases hm : s.modifier with
  | none =>
    rw [Spelling.modifierChars_of_eq_none hm]
    rfl
  | some m =>
    rw [Spelling.modifierChars_of_eq_some hm, SignedNumeral.chars, Text.normalizeChars_sign,
      Text.normalizeChars_digits m.size.isDigit_of_mem]

/-- The normal form of a written term is a spelling of this term. -/
theorem Writes.exists_spelling {t : Term} {cs : List Char} (h : Writes t cs) :
    ∃ s : Spelling, s.chars = normalizeChars cs ∧ s.toTerm = .ok t := by
  obtain ⟨hcount, hletter, hsides, hmodifier⟩ := h
  obtain ⟨count, hcountChars, hcountValue⟩ := hcount.exists_count
  obtain ⟨sides, rfl, hsidesValue⟩ := hsides.exists_numeral
  obtain ⟨modifier, hmodifierChars, hmodifierValue⟩ := hmodifier.exists_modifier
  let s : Spelling := ⟨count, sides, modifier⟩
  have hcountChars : s.countChars = _ := hcountChars
  have hmodifierChars : s.modifierChars = _ := hmodifierChars
  -- Of the characters only the letter has a normal form of its own
  refine ⟨s, ?_, Spelling.toTerm_eq_ok_iff.mpr ⟨hcountValue, hsidesValue, hmodifierValue⟩⟩
  rw [Text.normalizeChars_append, Text.normalizeChars_letter hletter, Text.normalizeChars_append,
    ← hcountChars, ← hmodifierChars, Text.normalizeChars_digits s.isDigit_of_mem_countChars,
    Text.normalizeChars_digits sides.isDigit_of_mem, normalizeChars_modifierChars]
  rfl

/-! ## §3 Joined with `+` -/

theorem normalizeChars_intercalate (parts : List (List Char)) :
    normalizeChars (['+'].intercalate parts) = ['+'].intercalate (parts.map normalizeChars) := by
  induction parts with
  | nil => rfl
  | cons part parts ih =>
    cases parts with
    | nil => simp
    | cons next parts =>
      have hplus : normalizeChars ['+'] = ['+'] := Text.normalizeChars_sign .plus []
      rw [List.intercalate_cons_cons, Text.normalizeChars_append, Text.normalizeChars_append, hplus,
        ih, List.map_cons, List.map_cons, List.map_cons, List.intercalate_cons_cons]

theorem exists_spellings_of_writes {terms : List Term} {parts : List (List Char)}
    (h : List.Forall₂ Writes terms parts) :
    ∃ spellings : List Spelling,
      spellings.map Spelling.chars = parts.map normalizeChars ∧
        List.Forall₂ (fun s t => s.toTerm = .ok t) spellings terms := by
  induction h with
  | nil => exact ⟨[], rfl, .nil⟩
  | cons hpart _ ih =>
    obtain ⟨s, hs, hterm⟩ := hpart.exists_spelling
    obtain ⟨spellings, hspellings, hterms⟩ := ih
    refine ⟨s :: spellings, ?_, .cons hterm hterms⟩
    rw [List.map_cons, List.map_cons, hs, hspellings]

/-- Spellings joined with `+` are cut where they are joined. -/
theorem isSettledOf_intercalate (first : Spelling) (more : List Spelling) :
    Cut.IsSettledOf ⟨first, more.map (Joined.mk true)⟩
      (['+'].intercalate ((first :: more).map Spelling.chars)) := by
  induction more generalizing first with
  | nil => exact ⟨by simp [Cut.chars], first.endsBefore_of_not_starts rfl rfl⟩
  | cons next more ih =>
    obtain ⟨hchars, hsettled⟩ := ih next
    have hjoin : ['+'].intercalate ((first :: next :: more).map Spelling.chars) =
        first.chars ++ '+' :: ['+'].intercalate ((next :: more).map Spelling.chars) := by
      simp [List.intercalate_cons_cons]
    refine ⟨?_, first.endsBefore_of_not_starts rfl rfl, hsettled⟩
    rw [hjoin, ← hchars]
    simp [Cut.chars, Joined.chars]

/-- **Reading what was written**: every way to write terms is read as these terms, in both
grammars. -/
theorem parse_eq_of_writesAll {terms : List Term} (hterms : terms ≠ []) {text : String}
    (h : WritesAll terms text) (grammar : Grammar) : grammar.parse text = .ok terms := by
  obtain ⟨parts, hparts, hspaced⟩ := h
  obtain ⟨spellings, hchars, htoTerm⟩ := exists_spellings_of_writes hparts
  -- White space and capitals are gone, what is left are spellings joined with `+`
  have hnormal : (Text.normalize text).toList =
      ['+'].intercalate (spellings.map Spelling.chars) := by
    rw [Text.normalize, String.toList_ofList, Text.normalizeChars_eq_of_spaced hspaced,
      normalizeChars_intercalate, hchars]
  cases htoTerm with
  | nil => exact absurd rfl hterms
  | @cons first _ more _ hfirst hmore =>
    have hsum : Spelling.readSum? (Text.normalize text).toList = some (first :: more) := by
      rw [hnormal, (isSettledOf_intercalate first more).readSum?_eq]
      simp [Cut.spellings, Function.comp_def]
    rw [Grammar.parse_of_readSum? hsum, Spelling.mapM_toTerm_eq_ok_iff]
    exact .cons hfirst hmore

/-! ## §4 Canonical notation -/

theorem writesNumber_toString (n : Nat) : WritesNumber n (toString n).toList :=
  ⟨0, by simp [Nat.toString_eq_repr]⟩

theorem writesModifier_signedText (modifier : Score) :
    WritesModifier modifier (Score.signedText modifier).toList := by
  by_cases hsign : 0 ≤ modifier.toInt
  · have htext : (Score.signedText modifier).toList =
        Sign.plus.char :: (toString modifier.toInt.toNat).toList := by
      simp [Score.signedText, Score.text, Int.repr_eq_if, hsign, Sign.char]
    rw [htext]
    exact .written (Int.toNat_of_nonneg hsign).symm (writesNumber_toString _)
  · have htext : (Score.signedText modifier).toList =
        Sign.minus.char :: (toString (-modifier.toInt).toNat).toList := by
      simp [Score.signedText, Score.text, Int.repr_eq_if, hsign, Sign.char]
    have hsize : modifier.toInt = Sign.minus.apply (-modifier.toInt).toNat := by
      simp only [Sign.apply]
      omega
    rw [htext]
    exact .written hsize (writesNumber_toString _)

theorem writesModifier_modifierText (t : Term) :
    WritesModifier t.modifier t.modifierText.toList := by
  unfold Term.modifierText
  split
  · next hzero =>
    rw [hzero]
    exact .omitted
  · exact writesModifier_signedText t.modifier

theorem writes_text (t : Term) : Writes t t.text.toList := by
  have htext : t.text.toList = (toString t.count).toList ++
      'd' :: ((toString t.sides).toList ++ t.modifierText.toList) := by
    simp [Term.text, Term.diceText]
  rw [htext]
  exact .intro (.written (writesNumber_toString _)) (.inl rfl) (writesNumber_toString _)
    (writesModifier_modifierText t)

theorem toList_canonicalText (terms : List Term) :
    (canonicalText terms).toList = ['+'].intercalate (terms.map fun t => t.text.toList) := by
  simp [canonicalText, String.toList_intercalate, Function.comp_def]

theorem writesAll_canonicalText (terms : List Term) : WritesAll terms (canonicalText terms) := by
  refine ⟨terms.map fun t => t.text.toList, ?_, ?_⟩
  · induction terms with
    | nil => exact .nil
    | cons t terms ih => exact .cons (writes_text t) ih
  · -- No white space is written
    rw [toList_canonicalText]
    apply Spaced.refl

/-- Canonical notation is read as the terms that it is about. -/
theorem parse_canonicalText {terms : List Term} (hterms : terms ≠ []) (grammar : Grammar) :
    grammar.parse (canonicalText terms) = .ok terms :=
  parse_eq_of_writesAll hterms (writesAll_canonicalText terms) grammar

/-- **Every way to write terms is read as these terms**, in both grammars. So canonical notation
is undone by reading it: it tells lists of terms apart, and writing down what was read of any
accepted text gives a text that is read the same and written down the same. -/
theorem parse_of_writes :
    (∀ (terms : List Term) (text : String) (grammar : Grammar), terms ≠ [] →
      WritesAll terms text → grammar.parse text = .ok terms) ∧
    (∀ (tally : Tally) (grammar : Grammar), tally.outcomes ≠ [] →
      grammar.parse tally.canonical = .ok (tally.outcomes.map Outcome.term)) ∧
    (∀ (t : Term) (grammar : Grammar), grammar.parse t.text = .ok [t]) ∧
    (∀ terms terms' : List Term, terms ≠ [] → terms' ≠ [] →
      canonicalText terms = canonicalText terms' → terms = terms') ∧
    ∀ (text : String) (terms : List Term) (grammar grammar' : Grammar),
      grammar.parse text = .ok terms → grammar'.parse (canonicalText terms) = .ok terms := by
  refine ⟨?_, ?_, ?_, ?_, ?_⟩
  · intro terms text grammar hterms hwrites
    exact parse_eq_of_writesAll hterms hwrites grammar
  · intro tally grammar houtcomes
    apply parse_canonicalText
    simpa using houtcomes
  · intro t grammar
    have htext : canonicalText [t] = t.text := by simp [canonicalText]
    rw [← htext]
    exact parse_canonicalText (List.cons_ne_nil t []) grammar
  · intro terms terms' hterms hterms' heq
    -- The same text is read as both
    have hparse := parse_canonicalText hterms .strict
    rw [heq, parse_canonicalText hterms' .strict] at hparse
    exact (Except.ok.inj hparse).symm
  · intro text terms grammar grammar' h
    exact parse_canonicalText (Grammar.ne_nil_of_parse h) grammar'

/-- A count with white space inside, a capital, zeros in front, and a zero that is taken away. -/
theorem parse_spaced_terms :
    Grammar.lenient.parse "0 2D06+3 + d20-00" =
      .ok [⟨2, 6, 3, by decide, by decide⟩, ⟨1, 20, 0, by decide, by decide⟩] := by
  have hfirst : Writes ⟨2, 6, 3, by decide, by decide⟩
      (['0', '2'] ++ 'D' :: (['0', '6'] ++ ['+', '3'])) := by
    have hmodifier : WritesModifier 3 (Sign.plus.char :: ['3']) :=
      .written (by decide : Int64.toInt 3 = Sign.plus.apply 3) ⟨0, by decide⟩
    exact .intro (.written ⟨1, by decide⟩) (.inr rfl) ⟨1, by decide⟩ hmodifier
  have hsecond : Writes ⟨1, 20, 0, by decide, by decide⟩
      ([] ++ 'd' :: (['2', '0'] ++ ['-', '0', '0'])) := by
    have hmodifier : WritesModifier 0 (Sign.minus.char :: ['0', '0']) :=
      .written (by decide : Int64.toInt 0 = Sign.minus.apply 0) ⟨1, by decide⟩
    exact .intro .omitted (.inl rfl) ⟨0, by decide⟩ hmodifier
  have hspaced := Text.spaced_dropWhiteSpace "0 2D06+3 + d20-00".toList
  exact parse_of_writes.1 _ _ .lenient (List.cons_ne_nil _ _)
    ⟨_, .cons hfirst (.cons hsecond .nil), hspaced⟩

end DiceNotation
