import DiceNotation.Proofs.Places
import DiceNotation.Proofs.Writing

/-!
# Words between Terms

The lenient grammar passes over a word between two terms, unless the word ends in a `d`.
White space goes before anything is read, so this letter then stands directly before the
count of the next term, and the two are dice: `2d6 and 1d4` has the terms `2d6`, `d1` and
`d4`. Main statement: `parse_around_word_iff`.
-/

namespace DiceNotation

open Text (normalizeChars)

/-- One or more letters of ASCII. -/
structure Word where
  letters : List Char
  nonempty : letters ≠ []
  alphabetic : letters.all Char.isAlpha = true

namespace Word

def text (w : Word) : String :=
  String.ofList w.letters

/-- The last letter is a `d`, small or capital. -/
def endsInD (w : Word) : Bool :=
  w.letters.getLast w.nonempty ∈ ['d', 'D']

end Word

/-! ## §1 Words in normal form -/

/-- The normal form of a letter is its small form, which is neither a digit nor a sign. -/
theorem toLower_of_isAlpha {c : Char} (h : c.isAlpha = true) :
    normalizeChars [c] = [c.toLower] ∧ c.toLower.isDigit = false ∧
      Sign.ofChar? c.toLower = none ∧ (c.toLower = 'd' ↔ c ∈ ['d', 'D']) := by
  have hall : ∀ n < 123, (Char.ofNat n).isAlpha = true →
      normalizeChars [Char.ofNat n] = [(Char.ofNat n).toLower] ∧
        (Char.ofNat n).toLower.isDigit = false ∧
          Sign.ofChar? (Char.ofNat n).toLower = none ∧
            ((Char.ofNat n).toLower = 'd' ↔ Char.ofNat n ∈ ['d', 'D']) := by
    decide +kernel
  have hlt : c.toNat < 123 := by
    obtain hupper | hlower := Bool.or_eq_true_iff.mp h
    · have hrange : 'A'.val ≤ c.val ∧ c.val ≤ 'Z'.val := of_decide_eq_true hupper
      exact Nat.lt_of_le_of_lt hrange.2 (by decide)
    · obtain ⟨-, hz⟩ := Bool.and_eq_true_iff.mp hlower
      exact Nat.lt_of_le_of_lt (UInt32.le_iff_toNat_le.mp (of_decide_eq_true hz)) (by decide)
  have hc := hall c.toNat hlt
  rw [Char.ofNat_toNat] at hc
  exact hc h

namespace Word

/-- The small letters of a word. -/
def small (w : Word) : List Char :=
  w.letters.map Char.toLower

theorem isAlpha_of_mem (w : Word) : ∀ c ∈ w.letters, c.isAlpha = true :=
  List.all_eq_true.mp w.alphabetic

theorem normalizeChars_letters (w : Word) : normalizeChars w.letters = w.small := by
  have hletters := w.isAlpha_of_mem
  rw [small]
  generalize w.letters = letters at hletters
  induction letters with
  | nil => rfl
  | cons c letters ih =>
    obtain ⟨hc, hletters⟩ := List.forall_mem_cons.mp hletters
    rw [Text.normalizeChars_cons, (toLower_of_isAlpha hc).1, ih hletters]
    rfl

theorem small_ne_nil (w : Word) : w.small ≠ [] :=
  mt List.map_eq_nil_iff.mp w.nonempty

theorem isDigit_of_mem_small (w : Word) : ∀ c ∈ w.small, c.isDigit = false := by
  intro c hc
  obtain ⟨letter, hletter, rfl⟩ := List.mem_map.mp hc
  exact (toLower_of_isAlpha (w.isAlpha_of_mem letter hletter)).2.1

theorem getLast?_small_eq_some_iff (w : Word) :
    w.small.getLast? = some 'd' ↔ w.endsInD = true := by
  have hlast := toLower_of_isAlpha (w.isAlpha_of_mem _ (List.getLast_mem w.nonempty))
  rw [small, List.getLast?_map, List.getLast?_eq_some_getLast w.nonempty, Option.map_some,
    Option.some.injEq, hlast.2.2.2, endsInD, decide_eq_true_eq]

end Word

/-! ## §2 Text without digits -/

namespace Spelling

/-- No dice start in text without digits, unless its last `d` stands directly before one. -/
theorem startsDice_append_of_no_digit {cs rest : List Char} (hne : cs ≠ [])
    (hcs : ∀ c ∈ cs, c.isDigit = false)
    (hend : cs.getLast? = some 'd' → startsDigit rest = false) :
    startsDice (cs ++ rest) = false := by
  obtain ⟨c, cs, rfl⟩ := List.exists_cons_of_ne_nil hne
  by_cases hc : c = 'd'
  · subst hc
    rw [List.cons_append, startsDice_cons_d]
    cases cs with
    | nil => exact hend rfl
    | cons c' cs => exact hcs c' (by simp)
  · exact startsDice_cons_of_ne hc (cs ++ rest)

theorem startsDigit_append_of_no_digit {cs rest : List Char} (hne : cs ≠ [])
    (hcs : ∀ c ∈ cs, c.isDigit = false) : startsDigit (cs ++ rest) = false := by
  obtain ⟨c, cs, rfl⟩ := List.exists_cons_of_ne_nil hne
  exact hcs c List.mem_cons_self

/-- Text without digits is passed over, unless its last `d` stands directly before one. -/
theorem findAll_append_of_no_digit {cs rest : List Char} (hcs : ∀ c ∈ cs, c.isDigit = false)
    (hend : cs.getLast? = some 'd' → startsDigit rest = false) :
    findAll (cs ++ rest) = findAll rest := by
  induction cs with
  | nil => rfl
  | cons c cs ih =>
    have hread : read? (c :: cs ++ rest) = none := by
      rw [read?_eq_none_iff,
        dropWhile_eq_self (startsDigit_append_of_no_digit (List.cons_ne_nil c cs) hcs)]
      exact startsDice_append_of_no_digit (List.cons_ne_nil c cs) hcs hend
    rw [List.cons_append] at hread ⊢
    rw [findAll_cons_of_read?_eq_none hread]
    refine ih (fun d hd => hcs d (List.mem_cons_of_mem c hd)) fun hlast => hend ?_
    -- What is left ends in the same letter
    rw [List.getLast?_cons, hlast]
    rfl

theorem readModifier?_cons_eq_none {c : Char} (h : Sign.ofChar? c = none) (cs : List Char) :
    readModifier? (c :: cs) = none := by
  simp [readModifier?, Sign.read?_cons, h]

end Spelling

/-- Dice stand wherever they stand in the rest of a text. -/
theorem length_placesFrom_le (before cs rest : List Char) :
    (placesFrom (before ++ cs) rest).length ≤ (placesFrom before (cs ++ rest)).length := by
  induction cs generalizing before with
  | nil => simp
  | cons c cs ih =>
    have hrest := ih (before ++ [c])
    rw [List.append_assoc, List.singleton_append] at hrest
    rw [List.cons_append, placesFrom_cons, List.length_append]
    omega

theorem length_findAll (cs : List Char) :
    (Spelling.findAll cs).length = (placesFrom [] cs).length := by
  have hmap := congrArg List.length (map_description_findAll cs)
  rwa [List.length_map, List.length_map, ← placesFrom_nil_left] at hmap

/-! ## §3 A word between two terms -/

/-- The normal form of a term in canonical notation is a spelling that starts with a digit. -/
theorem Term.exists_spelling_text (t : Term) :
    ∃ s : Spelling, s.chars = normalizeChars t.text.toList ∧ s.toTerm = .ok t ∧
      startsDigit s.chars = true := by
  obtain ⟨s, hchars, hterm⟩ := (writes_text t).exists_spelling
  refine ⟨s, hchars, hterm, ?_⟩
  obtain ⟨numeral, hdigits, -⟩ := (writesNumber_toString t.count).exists_numeral
  obtain ⟨c, cs, hcons, hc⟩ := numeral.exists_digits_eq_cons
  have htext : t.text.toList = numeral.digits ++
      (("d" ++ toString t.sides).toList ++ t.modifierText.toList) := by
    simp [Term.text, Term.diceText, hdigits]
  -- The count is written
  rw [hchars, htext, Text.normalizeChars_append, Text.normalizeChars_digits numeral.isDigit_of_mem,
    hcons]
  exact hc

theorem Word.readModifier?_small_append (w : Word) (rest : List Char) :
    Spelling.readModifier? (w.small ++ rest) = none := by
  obtain ⟨c, cs, hcons⟩ := List.exists_cons_of_ne_nil w.small_ne_nil
  have hmem : c ∈ w.small := by simp [hcons]
  obtain ⟨letter, hletter, rfl⟩ := List.mem_map.mp hmem
  have hsign := (toLower_of_isAlpha (w.isAlpha_of_mem letter hletter)).2.2.1
  rw [hcons]
  exact Spelling.readModifier?_cons_eq_none hsign (cs ++ rest)

namespace Spelling

/-- A term before a word is read whole, unless the word is part of a count that follows. -/
theorem read?_chars_append_word (s : Spelling) (w : Word) {rest : List Char}
    (hend : w.endsInD = true → startsDigit rest = false) :
    read? (s.chars ++ (w.small ++ rest)) = some (s, w.small ++ rest) := by
  have hdigit : startsDigit (w.small ++ rest) = false :=
    startsDigit_append_of_no_digit w.small_ne_nil w.isDigit_of_mem_small
  have hdice := startsDice_append_of_no_digit w.small_ne_nil w.isDigit_of_mem_small
    fun hlast => hend (w.getLast?_small_eq_some_iff.mp hlast)
  exact read?_eq_some_iff.mpr
    ⟨rfl, s.endsBefore_of_not_starts hdigit hdice, fun _ => w.readModifier?_small_append rest⟩

theorem findAll_chars (s : Spelling) : findAll s.chars = [s] := by
  have hread : read? s.chars = some (s, []) :=
    read?_eq_some_iff.mpr
      ⟨(List.append_nil _).symm, s.endsBefore_of_not_starts rfl rfl, fun _ => rfl⟩
  rw [findAll_of_read?_eq_some hread]
  simp [findAll]

/-- The word is passed over. -/
theorem findAll_around_word (s t : Spelling) {w : Word} (h : w.endsInD = false) :
    findAll (s.chars ++ (w.small ++ t.chars)) = [s, t] := by
  have hend : w.endsInD = true → startsDigit t.chars = false := by simp [h]
  rw [findAll_of_read?_eq_some (s.read?_chars_append_word w hend),
    findAll_append_of_no_digit w.isDigit_of_mem_small
      fun hlast => hend (w.getLast?_small_eq_some_iff.mp hlast),
    findAll_chars]

/-- The last letter of the word and the count of the term behind it are dice, too. -/
theorem three_le_length_findAll (s : Spelling) {t : Spelling} {w : Word} (h : w.endsInD = true)
    (ht : startsDigit t.chars = true) :
    3 ≤ (findAll (s.chars ++ (w.small ++ t.chars))).length := by
  obtain ⟨ds, hsmall⟩ : ∃ ds, w.small = ds ++ ['d'] :=
    List.getLast?_eq_some_iff.mp (w.getLast?_small_eq_some_iff.mpr h)
  have hle := length_placesFrom_le s.chars ds ('d' :: t.chars)
  have hletter : placesFrom (s.chars ++ ds) ('d' :: t.chars) =
      (s.chars ++ ds).length :: placesFrom (s.chars ++ ds ++ ['d']) t.chars := by
    rw [placesFrom_cons, startsDice_cons_d, if_pos ht, List.singleton_append]
  have hlast : 1 ≤ (placesFrom (s.chars ++ ds ++ ['d']) t.chars).length := by
    have hplaces := placesFrom_chars (s.chars ++ ds ++ ['d']) t []
    rw [List.append_nil] at hplaces
    rw [hplaces, List.length_cons]
    omega
  rw [hletter, List.length_cons] at hle
  rw [length_findAll, placesFrom_chars, List.length_cons, hsmall, List.append_assoc,
    List.singleton_append, List.nil_append]
  omega

end Spelling

theorem normalize_around_word {a b : Term} (w : Word) {s t : Spelling}
    (hs : s.chars = normalizeChars a.text.toList) (ht : t.chars = normalizeChars b.text.toList) :
    (Text.normalize (a.text ++ " " ++ w.text ++ " " ++ b.text)).toList =
      s.chars ++ (w.small ++ t.chars) := by
  have hspace : normalizeChars [' '] = [] := by decide
  have hcons (cs : List Char) : normalizeChars (' ' :: cs) = normalizeChars cs := by
    rw [Text.normalizeChars_cons, hspace, List.nil_append]
  simp [Text.normalize, Word.text, Text.normalizeChars_append, hcons, w.normalizeChars_letters, hs,
    ht]

/-- **Words between terms are ignored unless they end in a `d`.** Two terms in canonical notation
with a word between them, set off by spaces, are read as these two terms iff the last letter of
the word is not a `d`. -/
theorem parse_around_word_iff (a b : Term) (w : Word) :
    Grammar.lenient.parse (a.text ++ " " ++ w.text ++ " " ++ b.text) = .ok [a, b] ↔
      w.endsInD = false := by
  obtain ⟨s, hs, hsterm, -⟩ := a.exists_spelling_text
  obtain ⟨t, ht, htterm, hdigit⟩ := b.exists_spelling_text
  rw [Grammar.parse_lenient, normalize_around_word w hs ht]
  refine ⟨fun h => Bool.eq_false_iff.mpr fun hd => ?_, fun h => ?_⟩
  · -- There would be a third term
    have hthree := s.three_le_length_findAll hd hdigit
    split at h
    · cases h
    · have hlength := (Spelling.mapM_toTerm_eq_ok_iff.mp h).length_eq
      rw [hlength] at hthree
      exact absurd hthree (by simp)
  · rw [Spelling.findAll_around_word s t h, if_neg (List.cons_ne_nil s [t]),
      Spelling.mapM_toTerm_eq_ok_iff]
    exact .cons hsterm (.cons htterm .nil)

/-- The word `and` ends in a `d`: it makes a third term of the count behind it. No `+` does so. -/
theorem parse_and_between_terms :
    Grammar.lenient.parse "2d6 and 1d4" =
        .ok [⟨2, 6, 0, by decide, by decide⟩, ⟨1, 1, 0, by decide, by decide⟩,
          ⟨1, 4, 0, by decide, by decide⟩] ∧
      Grammar.lenient.parse "2d6+1d4" =
        .ok [⟨2, 6, 0, by decide, by decide⟩, ⟨1, 4, 0, by decide, by decide⟩] := by
  decide +kernel

end DiceNotation
