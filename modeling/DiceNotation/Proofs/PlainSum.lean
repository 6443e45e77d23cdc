import DiceNotation.Proofs.Cut
import Mathlib.Computability.RegularExpressions

/-!
# Sums as a Regular Language

Without looking ahead and without longest runs, the texts of sums are those of a plain
regular expression (`plainSum`). It reads many texts in several ways: `1d6+2d4` is
`1d6` and `2d4`, but also `1d6+2` and `d4`. The strict grammar keeps one way, and still
it accepts the same texts, but for those with a `-` in front of dice.

Any cut of a text is turned into a settled one joint by joint, from left to right
(`exists_settled_joint`): digits go over to the term on their left, and a modifier that
is the count of dice becomes a `+` and that count. Main statement: `exists_isSettledOf`.
-/

namespace DiceNotation

open Text (Numeral)
open RegularExpression (char star matches'_add matches'_mul matches'_star matches'_epsilon)

/-! ## §1 The regular expression -/

/-- The expression `[0-9]`. -/
def plainDigit : RegularExpression Char :=
  (decimalDigits.map char).sum

/-- The expression `[0-9]+`. -/
def plainNumeral : RegularExpression Char :=
  plainDigit * star plainDigit

/-- The expression `[0-9]*d[0-9]+([+-][0-9]+)?`. -/
def plainTerm : RegularExpression Char :=
  star plainDigit * char 'd' * plainNumeral * (1 + (char '+' + char '-') * plainNumeral)

/-- The expression `T(\+?T)*` for the terms `T`. -/
def plainSum : RegularExpression Char :=
  plainTerm * star ((1 + char '+') * plainTerm)

/-! ## §2 What it matches -/

theorem mem_char (c : Char) (w : List Char) : w ∈ (char c).matches' ↔ w = [c] :=
  Iff.rfl

theorem mem_matches'_sum_map_char (choices : List Char) (w : List Char) :
    w ∈ (choices.map char).sum.matches' ↔ ∃ c ∈ choices, w = [c] := by
  induction choices with
  | nil => simp
  | cons c choices ih =>
    rw [List.map_cons, List.sum_cons, matches'_add, Language.mem_add, ih, mem_char]
    simp

theorem mem_plainDigit (w : List Char) :
    w ∈ plainDigit.matches' ↔ ∃ c, c.isDigit = true ∧ w = [c] := by
  simp only [plainDigit, mem_matches'_sum_map_char, isDigit_iff_mem]

theorem mem_star_plainDigit (w : List Char) :
    w ∈ (star plainDigit).matches' ↔ ∀ c ∈ w, c.isDigit = true := by
  rw [matches'_star, Language.mem_kstar]
  refine ⟨fun h => ?_, fun h => ?_⟩
  · obtain ⟨parts, rfl, hparts⟩ := h
    intro c hc
    obtain ⟨part, hpart, hc⟩ := List.mem_flatten.mp hc
    obtain ⟨d, hd, rfl⟩ := (mem_plainDigit part).mp (hparts part hpart)
    rw [List.mem_singleton.mp hc]
    exact hd
  · -- The text is cut into its characters
    refine ⟨w.map fun c => [c], ?_, ?_⟩
    · rw [← List.flatMap_def, List.flatMap_singleton']
    · intro part hpart
      obtain ⟨c, hc, rfl⟩ := List.mem_map.mp hpart
      exact (mem_plainDigit [c]).mpr ⟨c, h c hc, rfl⟩

/-- Numerals match, and nothing else. -/
theorem mem_plainNumeral (w : List Char) :
    w ∈ plainNumeral.matches' ↔ ∃ n : Numeral, w = n.digits := by
  rw [plainNumeral, matches'_mul, Language.mem_mul]
  refine ⟨fun h => ?_, fun h => ?_⟩
  · obtain ⟨first, hfirst, more, hmore, rfl⟩ := h
    obtain ⟨c, hc, rfl⟩ := (mem_plainDigit first).mp hfirst
    have hall : ([c] ++ more).all Char.isDigit = true := by
      simpa [hc] using (mem_star_plainDigit more).mp hmore
    exact ⟨⟨[c] ++ more, by simp, hall⟩, rfl⟩
  · obtain ⟨n, rfl⟩ := h
    obtain ⟨c, more, hn, hc⟩ := n.exists_digits_eq_cons
    refine ⟨[c], (mem_plainDigit [c]).mpr ⟨c, hc, rfl⟩, more, ?_, hn.symm⟩
    apply (mem_star_plainDigit more).mpr
    intro d hd
    apply n.isDigit_of_mem
    rw [hn]
    exact List.mem_cons_of_mem c hd

theorem mem_plainModifier (w : List Char) :
    w ∈ (1 + (char '+' + char '-') * plainNumeral).matches' ↔
      ∃ modifier : Option SignedNumeral, w = (modifier.map SignedNumeral.chars).getD [] := by
  simp only [matches'_add, matches'_mul, Language.mem_add,
    Language.mem_mul, matches'_epsilon, Language.mem_one,
    mem_char, mem_plainNumeral]
  refine ⟨fun h => ?_, fun h => ?_⟩
  · rcases h with rfl | ⟨sign, rfl | rfl, digits, ⟨n, rfl⟩, rfl⟩
    · exact ⟨none, rfl⟩
    · exact ⟨some ⟨.plus, n⟩, rfl⟩
    · exact ⟨some ⟨.minus, n⟩, rfl⟩
  · obtain ⟨_ | ⟨_ | _, n⟩, rfl⟩ := h
    · exact .inl rfl
    · exact .inr ⟨['+'], .inl rfl, n.digits, ⟨n, rfl⟩, rfl⟩
    · exact .inr ⟨['-'], .inr rfl, n.digits, ⟨n, rfl⟩, rfl⟩

theorem mem_star_plainDigit_iff_count (w : List Char) :
    w ∈ (star plainDigit).matches' ↔
      ∃ count : Option Numeral, w = (count.map Numeral.digits).getD [] := by
  rw [mem_star_plainDigit]
  refine ⟨fun h => ?_, fun h => ?_⟩
  · by_cases hw : w = []
    · exact ⟨none, hw⟩
    · exact ⟨some ⟨w, hw, List.all_eq_true.mpr h⟩, rfl⟩
  · obtain ⟨_ | n, rfl⟩ := h
    · simp
    · exact n.isDigit_of_mem

/-- Spellings match, and nothing else. -/
theorem mem_plainTerm (w : List Char) :
    w ∈ plainTerm.matches' ↔ ∃ s : Spelling, w = s.chars := by
  simp only [plainTerm, matches'_mul, Language.mem_mul, mem_char,
    mem_plainNumeral, mem_plainModifier, mem_star_plainDigit_iff_count]
  refine ⟨fun h => ?_, fun h => ?_⟩
  · obtain ⟨_, ⟨_, ⟨_, ⟨count, rfl⟩, _, rfl, rfl⟩, _, ⟨sides, rfl⟩, rfl⟩, _, hmodifier, rfl⟩ := h
    obtain ⟨modifier, rfl⟩ := hmodifier
    exact ⟨⟨count, sides, modifier⟩, by simp [Spelling.chars]⟩
  · obtain ⟨⟨count, sides, modifier⟩, rfl⟩ := h
    refine ⟨_, ⟨_, ⟨_, ⟨count, rfl⟩, _, rfl, rfl⟩, _, ⟨sides, rfl⟩, rfl⟩, _, ⟨modifier, rfl⟩, ?_⟩
    simp [Spelling.chars]

theorem mem_plainJoined (w : List Char) :
    w ∈ ((1 + char '+') * plainTerm).matches' ↔ ∃ j : Joined, w = j.chars := by
  simp only [matches'_mul, Language.mem_mul, matches'_add,
    Language.mem_add, matches'_epsilon, Language.mem_one, mem_char,
    mem_plainTerm]
  refine ⟨fun h => ?_, fun h => ?_⟩
  · rcases h with ⟨_, rfl | rfl, _, ⟨s, rfl⟩, rfl⟩
    · exact ⟨⟨false, s⟩, rfl⟩
    · exact ⟨⟨true, s⟩, rfl⟩
  · obtain ⟨⟨_ | _, s⟩, rfl⟩ := h
    · exact ⟨[], .inl rfl, s.chars, ⟨s, rfl⟩, rfl⟩
    · exact ⟨['+'], .inr rfl, s.chars, ⟨s, rfl⟩, rfl⟩

theorem mem_star_plainJoined (w : List Char) :
    w ∈ (star ((1 + char '+') * plainTerm)).matches' ↔
      ∃ more : List Joined, w = more.flatMap Joined.chars := by
  rw [matches'_star, Language.mem_kstar]
  refine ⟨fun h => ?_, fun h => ?_⟩
  · obtain ⟨parts, rfl, hparts⟩ := h
    induction parts with
    | nil => exact ⟨[], rfl⟩
    | cons part parts ih =>
      obtain ⟨j, rfl⟩ := (mem_plainJoined part).mp (hparts part List.mem_cons_self)
      obtain ⟨more, hmore⟩ := ih fun y hy => hparts y (List.mem_cons_of_mem _ hy)
      refine ⟨j :: more, ?_⟩
      rw [List.flatten_cons, List.flatMap_cons, hmore]
  · obtain ⟨more, rfl⟩ := h
    refine ⟨more.map Joined.chars, List.flatMap_def, ?_⟩
    intro part hpart
    obtain ⟨j, -, rfl⟩ := List.mem_map.mp hpart
    exact (mem_plainJoined j.chars).mpr ⟨j, rfl⟩

/-- The regular expression matches the texts that can be cut into terms in some way. -/
theorem mem_plainSum (cs : List Char) :
    cs ∈ plainSum.matches' ↔ ∃ cut : Cut, cut.chars = cs := by
  simp only [plainSum, matches'_mul, Language.mem_mul, mem_plainTerm]
  refine ⟨fun h => ?_, fun h => ?_⟩
  · obtain ⟨_, ⟨first, rfl⟩, rest, hrest, rfl⟩ := h
    obtain ⟨more, rfl⟩ := (mem_star_plainJoined rest).mp hrest
    exact ⟨⟨first, more⟩, rfl⟩
  · obtain ⟨cut, rfl⟩ := h
    exact ⟨cut.first.chars, ⟨cut.first, rfl⟩, cut.more.flatMap Joined.chars,
      (mem_star_plainJoined _).mpr ⟨cut.more, rfl⟩, rfl⟩

/-! ## §3 A minus in front of dice -/

/-- Somewhere a `-`, at least one digit and dice follow one another. -/
def MinusBeforeDice (cs : List Char) : Prop :=
  ∃ (n : Numeral) (c : Char), c.isDigit = true ∧ '-' :: (n.digits ++ ['d', c]) <:+: cs

namespace MinusBeforeDice

theorem append_left {cs : List Char} (h : MinusBeforeDice cs) (before : List Char) :
    MinusBeforeDice (before ++ cs) := by
  obtain ⟨n, c, hc, hinfix⟩ := h
  exact ⟨n, c, hc, hinfix.trans (List.suffix_append before cs).isInfix⟩

/-- It does not start where no `-` is. -/
theorem of_append {before : List Char} (hminus : '-' ∉ before) {cs : List Char}
    (h : MinusBeforeDice (before ++ cs)) : MinusBeforeDice cs := by
  induction before with
  | nil => exact h
  | cons b before ih =>
    obtain ⟨n, c, hc, hinfix⟩ := h
    rcases List.infix_cons_iff.mp hinfix with hfront | hinfix
    · -- At the first character would be its minus
      have hb : '-' = b := (List.cons_prefix_cons.mp hfront).1
      exact absurd (hb ▸ List.mem_cons_self) hminus
    · exact ih (fun hmem => hminus (List.mem_cons_of_mem b hmem)) ⟨n, c, hc, hinfix⟩

/-- It does not start at a modifier that ends before the rest: its dice would follow. -/
theorem of_modifier_append {m : SignedNumeral} {rest : List Char}
    (hdigit : startsDigit rest = false) (hdice : Spelling.startsDice rest = false)
    (h : MinusBeforeDice (m.chars ++ rest)) : MinusBeforeDice rest := by
  obtain ⟨n, c, hc, hinfix⟩ := h
  rcases List.infix_cons_iff.mp hinfix with hfront | hinfix
  · -- At the sign both runs of digits are the same, hence so is what follows
    obtain ⟨after, hafter⟩ := (List.cons_prefix_cons.mp hfront).2
    have hboth : n.digits ++ 'd' :: c :: after = m.size.digits ++ rest := by
      simpa using hafter
    have hletter : startsDigit ('d' :: c :: after) = false := rfl
    have hrest : 'd' :: c :: after = rest := by
      have hdrop := congrArg (List.dropWhile Char.isDigit) hboth
      rwa [dropWhile_digits n.isDigit_of_mem hletter,
        dropWhile_digits m.size.isDigit_of_mem hdigit] at hdrop
    rw [← hrest, Spelling.startsDice_cons_d, startsDigit_cons, hc] at hdice
    cases hdice
  · -- Behind the sign stand digits only
    have hsize : '-' ∉ m.size.digits := notMem_of_kind rfl m.size.isDigit_of_mem
    exact of_append hsize ⟨n, c, hc, hinfix⟩

/-- It does not start within a spelling that ends before the rest. -/
theorem of_chars_append {s : Spelling} {rest : List Char} (hend : s.EndsBefore rest)
    (h : MinusBeforeDice (s.chars ++ rest)) : MinusBeforeDice rest := by
  -- Up to the sides there is no minus
  have hdice : '-' ∉ s.countChars ++ 'd' :: s.sides.digits := by
    have hcount : '-' ∉ s.countChars := notMem_of_kind rfl s.isDigit_of_mem_countChars
    have hsides : '-' ∉ s.sides.digits := notMem_of_kind rfl s.sides.isDigit_of_mem
    simp [hcount, hsides]
  have htext : s.chars ++ rest =
      (s.countChars ++ 'd' :: s.sides.digits) ++ (s.modifierChars ++ rest) := by
    simp [Spelling.chars_eq]
  rw [htext] at h
  replace h := h.of_append hdice
  cases hm : s.modifier with
  | none => rwa [Spelling.modifierChars_of_eq_none hm] at h
  | some m =>
    rw [Spelling.modifierChars_of_eq_some hm] at h
    exact of_modifier_append (hend.modifier_end m hm) (hend.modifier_kept m hm) h

theorem not_of_settledFrom {s : Spelling} {more : List Joined} (h : Joined.SettledFrom s more) :
    ¬ MinusBeforeDice (s.chars ++ more.flatMap Joined.chars) := by
  induction more generalizing s with
  | nil =>
    -- Behind the last term stands nothing
    intro hminus
    obtain ⟨n, c, -, hinfix⟩ := hminus.of_chars_append h.endsBefore
    exact absurd (List.infix_nil.mp hinfix) (by simp)
  | cons j more ih =>
    intro hminus
    replace hminus := hminus.of_chars_append h.endsBefore
    rw [List.flatMap_cons, Joined.chars, List.append_assoc] at hminus
    -- The separator holds no minus either
    have hplus : '-' ∉ if j.plus then ['+'] else [] := by cases j.plus <;> decide
    exact ih h.2 (hminus.of_append hplus)

end MinusBeforeDice

/-! ## §4 Settling a cut -/

/-- A numeral with further digits behind it. -/
def Text.Numeral.extend (n : Numeral) (ds : List Char) (hds : ∀ c ∈ ds, c.isDigit = true) :
    Numeral where
  digits := n.digits ++ ds
  nonempty := fun h => n.nonempty (List.append_eq_nil_iff.mp h).1
  decimal := by simpa [n.decimal] using hds

/-- A minus in front of dice stands where a term follows a negative modifier directly. -/
theorem MinusBeforeDice.of_modifier {s : Spelling} {size : Numeral}
    (hm : s.modifier = some ⟨.minus, size⟩) (t : Spelling) (rest : List Char) :
    MinusBeforeDice (s.chars ++ (t.chars ++ rest)) := by
  obtain ⟨c, more, hsides, hc⟩ := t.sides.exists_digits_eq_cons
  refine ⟨size.extend t.countChars t.isDigit_of_mem_countChars, c, hc,
    s.countChars ++ 'd' :: s.sides.digits, more ++ (t.modifierChars ++ rest), ?_⟩
  simp [Spelling.chars_eq, Spelling.modifierChars_of_eq_some hm, SignedNumeral.chars, Sign.char,
    Numeral.extend, hsides]

/-- Where two terms meet, the same text can be cut so that the first one ends there. -/
theorem exists_settled_joint (s : Spelling) (j : Joined) (rest : List Char)
    (h : ¬ MinusBeforeDice (s.chars ++ (j.chars ++ rest))) :
    ∃ (s' : Spelling) (j' : Joined),
      s'.chars ++ (j'.chars ++ rest) = s.chars ++ (j.chars ++ rest) ∧
        s'.EndsBefore (j'.chars ++ rest) := by
  obtain ⟨plus, t⟩ := j
  cases plus with
  | true =>
    -- Before a `+` every term ends
    exact ⟨s, ⟨true, t⟩, rfl, s.endsBefore_of_not_starts rfl rfl⟩
  | false =>
    cases hm : s.modifier with
    | none =>
      cases hcount : t.count with
      | none =>
        -- The letter of the next term ends the sides
        refine ⟨s, ⟨false, t⟩, rfl, Spelling.endsBefore_of_modifier_eq_none hm ?_⟩
        simp [Joined.chars, Spelling.chars_eq, Spelling.countChars, hcount]
      | some count =>
        -- The count belongs to the sides on its left
        refine ⟨{ s with sides := s.sides.extend count.digits count.isDigit_of_mem },
          ⟨false, { t with count := none }⟩, ?_, ?_⟩
        · simp [Joined.chars, Spelling.chars_eq, Spelling.countChars, Spelling.modifierChars, hm,
            hcount, Numeral.extend]
        · apply Spelling.endsBefore_of_modifier_eq_none
          · exact hm
          · rfl
    | some m =>
      obtain ⟨sign, size⟩ := m
      cases sign with
      | plus =>
        -- The sign is a separator, and the number belongs to the count on its right
        refine ⟨{ s with modifier := none },
          ⟨true, { t with count := some (size.extend t.countChars t.isDigit_of_mem_countChars) }⟩,
          ?_, ?_⟩
        · simp [Joined.chars, Spelling.chars_eq, Spelling.countChars, Spelling.modifierChars, hm,
            SignedNumeral.chars, Sign.char, Numeral.extend]
        · exact Spelling.endsBefore_of_modifier_eq_none rfl rfl
      | minus =>
        -- Here is the minus in front of dice
        exact absurd (MinusBeforeDice.of_modifier hm t rest) h

/-- Every cut of a text without a minus in front of dice can be settled. -/
theorem exists_isSettledOf (s : Spelling) (more : List Joined)
    (h : ¬ MinusBeforeDice (s.chars ++ more.flatMap Joined.chars)) :
    ∃ cut : Cut, cut.IsSettledOf (s.chars ++ more.flatMap Joined.chars) := by
  induction more generalizing s with
  | nil => exact ⟨⟨s, []⟩, rfl, s.endsBefore_of_not_starts rfl rfl⟩
  | cons j more ih =>
    rw [List.flatMap_cons] at h ⊢
    obtain ⟨s', ⟨plus, t⟩, hchars, hend⟩ := exists_settled_joint s j (more.flatMap Joined.chars) h
    -- What is left to settle starts behind the separator
    have hrest : ¬ MinusBeforeDice (t.chars ++ more.flatMap Joined.chars) := by
      intro hminus
      have hleft := hminus.append_left (s'.chars ++ if plus then ['+'] else [])
      rw [← hchars] at h
      apply h
      simpa [Joined.chars] using hleft
    obtain ⟨⟨first, further⟩, hcut, hsettled⟩ := ih t hrest
    have hjoined : (⟨plus, first⟩ :: further).flatMap Joined.chars =
        (⟨plus, t⟩ : Joined).chars ++ more.flatMap Joined.chars := by
      simpa [Joined.chars, Cut.chars] using hcut
    refine ⟨⟨s', ⟨plus, first⟩ :: further⟩, ?_, ?_, hsettled⟩
    · rw [Cut.chars, hjoined, hchars]
    · rwa [hjoined]

/-! ## §5 The strict grammar -/

/-- **The look-ahead costs nothing but a minus in front of dice.** The strict grammar accepts a
text iff the plain regular expression matches it and no `-` stands in front of dice in it. -/
theorem isSome_readSum?_iff (cs : List Char) :
    (Spelling.readSum? cs).isSome = true ↔ cs ∈ plainSum.matches' ∧ ¬ MinusBeforeDice cs := by
  rw [mem_plainSum]
  refine ⟨fun h => ?_, fun h => ?_⟩
  · obtain ⟨terms, hterms⟩ := Option.isSome_iff_exists.mp h
    obtain ⟨cut, ⟨rfl, hsettled⟩, -⟩ := Cut.exists_isSettledOf_of_readSum? hterms
    exact ⟨⟨cut, rfl⟩, MinusBeforeDice.not_of_settledFrom hsettled⟩
  · obtain ⟨⟨⟨first, more⟩, rfl⟩, hminus⟩ := h
    obtain ⟨cut, hcut⟩ := exists_isSettledOf first more hminus
    rw [Cut.chars, hcut.readSum?_eq]
    rfl

end DiceNotation
