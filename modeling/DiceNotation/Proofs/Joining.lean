import DiceNotation.Proofs.Agreement
import DiceNotation.Proofs.Normal
import DiceNotation.Proofs.TermByTerm
import DiceNotation.Roller.Script

/-!
# Joining Expressions

Two sums with a `+` between them are one sum: it has the terms of the first and then those
of the second. Nothing of the first one is read differently because of what is joined to
it, since a `+` ends every term, and digits behind the `+` are a count because dice follow
them. Rolling the sum is rolling the first and then the second from the state that the
first one leaves. Main statement: `joined_with_plus`.
-/

namespace DiceNotation

/-! ## §1 Joined cuts -/

/-- Every spelling ends before a `+`. -/
theorem Spelling.endsBefore_plus (s : Spelling) (rest : List Char) : s.EndsBefore ('+' :: rest) :=
  s.endsBefore_of_not_starts rfl rfl

theorem Joined.SettledFrom.join {s s' : Spelling} {more more' : List Joined}
    (h : SettledFrom s more) (h' : SettledFrom s' more') :
    SettledFrom s (more ++ ⟨true, s'⟩ :: more') := by
  induction more generalizing s with
  | nil => exact ⟨s.endsBefore_plus _, h'⟩
  | cons j more ih =>
    obtain ⟨hend, hmore⟩ := h
    refine ⟨?_, ih hmore⟩
    -- The text behind the term goes on with the `+`
    show s.EndsBefore (((j :: more) ++ ⟨true, s'⟩ :: more').flatMap chars)
    rw [List.flatMap_append]
    exact hend.append_cons (by decide) (by decide) (s'.chars ++ more'.flatMap chars)

namespace Cut

/-- Two cuts with a `+` between them. -/
def join (cut cut' : Cut) : Cut where
  first := cut.first
  more := cut.more ++ ⟨true, cut'.first⟩ :: cut'.more

theorem spellings_join (cut cut' : Cut) :
    (cut.join cut').spellings = cut.spellings ++ cut'.spellings := by
  simp [join, spellings]

theorem IsSettledOf.join {cut cut' : Cut} {cs cs' : List Char} (h : cut.IsSettledOf cs)
    (h' : cut'.IsSettledOf cs') : (cut.join cut').IsSettledOf (cs ++ '+' :: cs') where
  chars_eq := by
    rw [← h.chars_eq, ← h'.chars_eq]
    simp [Cut.join, chars, Joined.chars]
  settled := h.settled.join h'.settled

end Cut

/-! ## §2 Joined texts -/

theorem Spelling.readSum?_append_plus {cs cs' : List Char} {found found' : List Spelling}
    (h : readSum? cs = some found) (h' : readSum? cs' = some found') :
    readSum? (cs ++ '+' :: cs') = some (found ++ found') := by
  obtain ⟨cut, hcut, rfl⟩ := Cut.exists_isSettledOf_of_readSum? h
  obtain ⟨cut', hcut', rfl⟩ := Cut.exists_isSettledOf_of_readSum? h'
  rw [(hcut.join hcut').readSum?_eq, Cut.spellings_join]

theorem Text.toList_normalize_join (a b : String) :
    (normalize (a ++ "+" ++ b)).toList = (normalize a).toList ++ '+' :: (normalize b).toList := by
  have hplus (cs : List Char) : normalizeChars ('+' :: cs) = '+' :: normalizeChars cs :=
    normalizeChars_sign .plus cs
  simp [normalize, normalizeChars_append, hplus]

section Texts

variable {a b : String} {found found' : List Spelling}
  (ha : Spelling.readSum? (Text.normalize a).toList = some found)
  (hb : Spelling.readSum? (Text.normalize b).toList = some found')

include ha hb

theorem Spelling.readSum?_normalize_join :
    readSum? (Text.normalize (a ++ "+" ++ b)).toList = some (found ++ found') := by
  rw [Text.toList_normalize_join]
  exact readSum?_append_plus ha hb

/-- What a joined text is read as: the terms of both parts, or the error of the first part that
has one. -/
theorem Grammar.parse_join (grammar : Grammar) :
    grammar.parse (a ++ "+" ++ b) = do
      let terms ← grammar.parse a
      let terms' ← grammar.parse b
      return terms ++ terms' := by
  rw [parse_of_readSum? (Spelling.readSum?_normalize_join ha hb), parse_of_readSum? ha,
    parse_of_readSum? hb, List.mapM_append]

end Texts

/-! ## §3 Rolling joined texts -/

/-- A run that does for one expression what two runs do one after the other: it has the outcomes
of both in order, and it runs out where one of them does. -/
structure Run.IsSequence {σ : Type} (expression : String)
    (first second joined : Run σ (Except NotationError Tally)) : Prop where
  /-- If both have a tally, it has the outcomes of both and leaves the state of the second. -/
  tallies : ∀ tally tally', first.answer = some (.ok tally) → second.answer = some (.ok tally') →
    joined.answer = some (.ok ⟨expression, tally.outcomes ++ tally'.outcomes⟩) ∧
      joined.state = second.state
  /-- If the roller runs out in the first, it runs out in the same state. -/
  first_ranOut : first.answer = none → joined.answer = none ∧ joined.state = first.state
  /-- If the roller runs out in the second, it runs out in the same state. -/
  second_ranOut : ∀ tally, first.answer = some (.ok tally) → second.answer = none →
    joined.answer = none ∧ joined.state = second.state

theorem Roller.isSequence_rollText {σ : Type} (r : Roller σ) {grammar : Grammar}
    {a b c : String} {terms terms' : List Term} (ha : grammar.parse a = .ok terms)
    (hb : grammar.parse b = .ok terms') (hc : grammar.parse c = .ok (terms ++ terms')) (s : σ) :
    Run.IsSequence c (r.rollText grammar a s)
      (r.rollText grammar b (r.rollText grammar a s).state) (r.rollText grammar c s) := by
  obtain ⟨outcomes, s₁, hrolls | hout⟩ := r.rolls_or_runsOut s terms
  · rw [hrolls.rollText_eq ha]
    obtain ⟨outcomes', s₂, hrolls' | hout'⟩ := r.rolls_or_runsOut s₁ terms'
    · rw [hrolls'.rollText_eq hb, (hrolls.append hrolls').rollText_eq hc]
      refine ⟨?_, ?_, ?_⟩
      · rintro _ _ ⟨⟩ ⟨⟩
        exact ⟨rfl, rfl⟩
      · rintro ⟨⟩
      · rintro _ _ ⟨⟩
    · rw [hout'.rollText_eq hb, (hrolls.append_runsOut hout').rollText_eq hc]
      refine ⟨?_, ?_, ?_⟩
      · rintro _ _ _ ⟨⟩
      · rintro ⟨⟩
      · rintro _ _ _
        exact ⟨rfl, rfl⟩
  · -- Nothing of the second expression is rolled
    rw [hout.rollText_eq ha, (hout.append terms').rollText_eq hc]
    refine ⟨?_, ?_, ?_⟩
    · rintro _ _ ⟨⟩
    · rintro _
      exact ⟨rfl, rfl⟩
    · rintro _ ⟨⟩

/-- **Joining sums with `+` is doing one after the other.** Two texts that the strict grammar
accepts are accepted with a `+` between them, and their terms follow one another. The joined text
has the terms of both, or the error of the first text that has one. Any roller rolls it like the
first text and then the second one, from the state that the first one leaves. -/
theorem joined_with_plus {a b : String} {found found' : List Spelling}
    (ha : Spelling.readSum? (Text.normalize a).toList = some found)
    (hb : Spelling.readSum? (Text.normalize b).toList = some found') :
    Spelling.readSum? (Text.normalize (a ++ "+" ++ b)).toList = some (found ++ found') ∧
    (∀ grammar : Grammar, grammar.parse (a ++ "+" ++ b) = do
      let terms ← grammar.parse a
      let terms' ← grammar.parse b
      return terms ++ terms') ∧
    ∀ (σ : Type) (r : Roller σ) (s : σ) (grammar : Grammar) (terms terms' : List Term),
      grammar.parse a = .ok terms → grammar.parse b = .ok terms' →
        Run.IsSequence (a ++ "+" ++ b) (r.rollText grammar a s)
          (r.rollText grammar b (r.rollText grammar a s).state)
          (r.rollText grammar (a ++ "+" ++ b) s) := by
  refine ⟨Spelling.readSum?_normalize_join ha hb, Grammar.parse_join ha hb, ?_⟩
  intro σ r s grammar terms terms' hterms hterms'
  have hparse : grammar.parse (a ++ "+" ++ b) = .ok (terms ++ terms') := by
    rw [Grammar.parse_join ha hb, hterms, hterms']
    rfl
  exact r.isSequence_rollText hterms hterms' hparse s

/-- The modifier of the first text stays one, and the script runs out in the second text. -/
theorem joined_with_plus_at_modifier :
    ∃ found found', Spelling.readSum? (Text.normalize "2d6+3").toList = some found ∧
      Spelling.readSum? (Text.normalize "D4 - 1").toList = some found' ∧
      Grammar.strict.parse ("2d6+3" ++ "+" ++ "D4 - 1") =
        .ok [⟨2, 6, 3, by decide, by decide⟩, ⟨1, 4, -1, by decide, by decide⟩] ∧
      Run.IsSequence ("2d6+3" ++ "+" ++ "D4 - 1")
        (Roller.scripted.rollText .strict "2d6+3" (.once [4, 5]))
        (Roller.scripted.rollText .strict "D4 - 1" (.once []))
        (Roller.scripted.rollText .strict ("2d6+3" ++ "+" ++ "D4 - 1") (.once [4, 5])) := by
  have hfound : (Spelling.readSum? (Text.normalize "2d6+3").toList).isSome := by decide +kernel
  have hfound' : (Spelling.readSum? (Text.normalize "D4 - 1").toList).isSome := by decide +kernel
  obtain ⟨found, ha⟩ := Option.isSome_iff_exists.mp hfound
  obtain ⟨found', hb⟩ := Option.isSome_iff_exists.mp hfound'
  have hterms : Grammar.strict.parse "2d6+3" = .ok [⟨2, 6, 3, by decide, by decide⟩] := by
    decide +kernel
  have hterms' : Grammar.strict.parse "D4 - 1" = .ok [⟨1, 4, -1, by decide, by decide⟩] := by
    decide +kernel
  have hstate : (Roller.scripted.rollText .strict "2d6+3" (.once [4, 5])).state = .once [] := by
    decide +kernel
  obtain ⟨-, hparse, hrun⟩ := joined_with_plus ha hb
  refine ⟨found, found', ha, hb, ?_, ?_⟩
  · rw [hparse, hterms, hterms']
    rfl
  · rw [← hstate]
    exact hrun _ Roller.scripted (.once [4, 5]) .strict _ _ hterms hterms'

end DiceNotation
