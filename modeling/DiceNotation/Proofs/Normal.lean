import DiceNotation.Proofs.Reading
import DiceNotation.Text.Normal

/-!
# Normal Forms of Notation

White space may stand anywhere in a text (`normalizeChars_eq_of_spaced`), the letter of
dice may be written either way, and all else of notation is in normal form already.
-/

namespace DiceNotation.Text

/-- The second text is the first one with white space inserted anywhere. -/
inductive Spaced : List Char → List Char → Prop where
  /-- Nothing is left to write. -/
  | nil : Spaced [] []
  /-- White space is inserted. -/
  | space {cs ds : List Char} {c : Char} :
      isWhiteSpace c = true → Spaced cs ds → Spaced cs (c :: ds)
  /-- A character is kept. -/
  | keep {cs ds : List Char} (c : Char) : Spaced cs ds → Spaced (c :: cs) (c :: ds)

theorem Spaced.refl (cs : List Char) : Spaced cs cs := by
  induction cs with
  | nil => exact .nil
  | cons c cs ih => exact .keep c ih

/-- All white space of a text may have been inserted. -/
theorem spaced_dropWhiteSpace (ds : List Char) : Spaced (dropWhiteSpace ds) ds := by
  induction ds with
  | nil => exact .nil
  | cons c ds ih =>
    by_cases hc : isWhiteSpace c = true
    · have hdrop : dropWhiteSpace (c :: ds) = dropWhiteSpace ds := by simp [dropWhiteSpace, hc]
      rw [hdrop]
      exact .space hc ih
    · have hdrop : dropWhiteSpace (c :: ds) = c :: dropWhiteSpace ds := by
        simp [dropWhiteSpace, hc]
      rw [hdrop]
      exact .keep c ih

/-- White space that is inserted is dropped again. -/
theorem normalizeChars_eq_of_spaced {cs ds : List Char} (h : Spaced cs ds) :
    normalizeChars ds = normalizeChars cs := by
  have hdrop : dropWhiteSpace ds = dropWhiteSpace cs := by
    induction h with
    | nil => rfl
    | space hc _ ih => simpa [dropWhiteSpace, hc] using ih
    | @keep cs ds c _ ih =>
      simp only [dropWhiteSpace, List.filter_cons] at ih ⊢
      rw [ih]
  rw [normalizeChars, hdrop, normalizeChars]

/-- A text is brought to normal form one character at a time. -/
theorem normalizeChars_cons (c : Char) (cs : List Char) :
    normalizeChars (c :: cs) = normalizeChars [c] ++ normalizeChars cs :=
  normalizeChars_append [c] cs

theorem normalizeChars_singleton {c : Char} (h : isWhiteSpace c = false) :
    normalizeChars [c] = lowercase c := by
  simp [normalizeChars, dropWhiteSpace, h]

theorem normalizeChars_digits {ds : List Char} (hds : ∀ c ∈ ds, c.isDigit = true) :
    normalizeChars ds = ds := by
  -- Ten digits are few enough to look at each of them
  have hall : decimalDigits.all (fun c => normalizeChars [c] == [c]) = true := by decide
  induction ds with
  | nil => rfl
  | cons c ds ih =>
    have hmem : c ∈ decimalDigits := (isDigit_iff_mem c).mp (hds c List.mem_cons_self)
    have hc : normalizeChars [c] = [c] := eq_of_beq (List.all_eq_true.mp hall c hmem)
    rw [normalizeChars_cons, hc, List.singleton_append, ih]
    intro d hd
    exact hds d (List.mem_cons_of_mem c hd)

theorem normalizeChars_sign (sign : Sign) (cs : List Char) :
    normalizeChars (sign.char :: cs) = sign.char :: normalizeChars cs := by
  have hsign : normalizeChars [sign.char] = [sign.char] := by cases sign <;> decide
  rw [normalizeChars_cons, hsign, List.singleton_append]

/-- The letter of dice has one normal form. -/
theorem normalizeChars_letter {letter : Char} (h : letter = 'd' ∨ letter = 'D') (cs : List Char) :
    normalizeChars (letter :: cs) = 'd' :: normalizeChars cs := by
  have hletter : normalizeChars [letter] = ['d'] := by
    rcases h with rfl | rfl <;> decide
  rw [normalizeChars_cons, hletter, List.singleton_append]

end DiceNotation.Text
