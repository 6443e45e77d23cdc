import DiceNotation.Proofs.Separators

/-!
# Foreign Characters

A character is foreign if it is neither white space nor one that notation is typed with: a digit, a
sign, or the letter of dice in either form. Lowercasing makes no notation of it, so the notation of
a normal form is what was typed of it (`Text.filter_normalizeChars`). And whatever becomes of it
only separates, so it may as well be a question mark (`Spelling.foundIn_masked`). Main statement:
`foreign_stays_foreign`.
-/

namespace DiceNotation

open Text (normalizeChars isWhiteSpace)

/-! ## §1 Typed notation -/

/-- The characters that notation is typed with. -/
def isTyped (c : Char) : Bool :=
  isNotation c || c == 'D'

/-- The letter of dice is small in normal form. -/
def smallLetter (c : Char) : Char :=
  if c = 'D' then 'd' else c

/-- What was typed of notation, with the letter of dice in normal form. -/
def typedNotation (cs : List Char) : List Char :=
  (cs.filter isTyped).map smallLetter

theorem mem_of_isTyped {c : Char} (h : isTyped c = true) :
    c ∈ decimalDigits ++ ['d', '+', '-', 'D'] := by
  simp only [isTyped, isNotation, Bool.or_eq_true, decide_eq_true_eq, beq_iff_eq] at h
  rcases h with (hdigit | hother) | rfl
  · exact List.mem_append_left _ ((isDigit_iff_mem c).mp hdigit)
  · refine List.mem_append_right _ ?_
    simp only [List.mem_cons, List.not_mem_nil, or_false] at hother ⊢
    tauto
  · decide

namespace Text

/-- Notation that was typed is notation in normal form. -/
theorem normalizeChars_of_isTyped {c : Char} (h : isTyped c = true) :
    normalizeChars [c] = [smallLetter c] ∧ isNotation (smallLetter c) = true := by
  -- Fourteen characters are few enough to look at each of them
  have hall : (decimalDigits ++ ['d', '+', '-', 'D']).all (fun b =>
      normalizeChars [b] == [smallLetter b] && isNotation (smallLetter b)) = true := by
    decide +kernel
  simpa using List.all_eq_true.mp hall c (mem_of_isTyped h)

/-- No foreign character becomes notation, and none disappears. -/
theorem normalizeChars_of_foreign {c : Char} (hspace : isWhiteSpace c = false)
    (htyped : isTyped c = false) :
    normalizeChars [c] ≠ [] ∧ ∀ d ∈ normalizeChars [c], isNotation d = false := by
  obtain ⟨hother, hD⟩ := Bool.or_eq_false_iff.mp htyped
  rw [normalizeChars_singleton hspace]
  exact ⟨lowercase_ne_nil c, isNotation_of_mem_lowercase hother (by simpa using hD)⟩

/-- **The notation of a normal form is what was typed of it.** -/
theorem filter_normalizeChars (cs : List Char) :
    (normalizeChars cs).filter isNotation = typedNotation cs := by
  induction cs with
  | nil => rfl
  | cons c cs ih =>
    rw [normalizeChars_cons, List.filter_append, ih]
    by_cases htyped : isTyped c = true
    · obtain ⟨hsmall, hkept⟩ := normalizeChars_of_isTyped htyped
      simp [typedNotation, htyped, hsmall, hkept]
    · have hrest : typedNotation (c :: cs) = typedNotation cs := by simp [typedNotation, htyped]
      -- The character leaves no notation, whether it is dropped or lowercased
      have hnone : (normalizeChars [c]).filter isNotation = [] := by
        by_cases hspace : isWhiteSpace c = true
        · simp [normalizeChars, dropWhiteSpace, hspace]
        · have hforeign := (normalizeChars_of_foreign (by simpa using hspace)
            (by simpa using htyped)).2
          exact List.filter_eq_nil_iff.mpr fun d hd => Bool.eq_false_iff.mp (hforeign d hd)
      rw [hnone, hrest, List.nil_append]

theorem filter_normalize (text : String) :
    (normalize text).toList.filter isNotation = typedNotation text.toList := by
  rw [normalize, String.toList_ofList, filter_normalizeChars]

end Text

/-! ## §2 What is found -/

namespace Spelling

/-- What is found stands in the text, one spelling behind the other. -/
theorem flatMap_chars_findAll_sublist (cs : List Char) :
    ((findAll cs).flatMap chars).Sublist cs := by
  induction cs using findAll.induct with
  | case1 => simp [findAll]
  | case2 c cs s rest hread ih =>
    rw [findAll_of_read?_eq_some hread, List.flatMap_cons, eq_append_of_read? hread]
    exact ih.append_left s.chars
  | case3 c cs hread ih =>
    rw [findAll_cons_of_read?_eq_none hread]
    exact ih.cons c

/-- What is found is made up of typed notation. -/
theorem flatMap_chars_foundIn_sublist (text : String) :
    ((foundIn text).flatMap chars).Sublist (typedNotation text.toList) := by
  have hchars : ∀ c ∈ (foundIn text).flatMap chars, isNotation c = true := by
    intro c hc
    obtain ⟨s, -, hc⟩ := List.mem_flatMap.mp hc
    exact s.isNotation_of_mem c hc
  have hsublist : (((foundIn text).flatMap chars).filter isNotation).Sublist
      ((Text.normalize text).toList.filter isNotation) :=
    (flatMap_chars_findAll_sublist _).filter isNotation
  rwa [List.filter_eq_self.mpr hchars, Text.filter_normalize] at hsublist

end Spelling

/-! ## §3 Masked texts -/

/-- A question mark for every foreign character. -/
def mask (c : Char) : Char :=
  if isWhiteSpace c || isTyped c then c else '?'

/-- A text with a question mark for every foreign character. -/
def masked (text : String) : String :=
  String.ofList (text.toList.map mask)

namespace Spelling

/-- Behind any beginning, the same is found in a text and in the masked text. -/
theorem findAll_append_masked (before cs : List Char) :
    findAll (before ++ normalizeChars (cs.map mask)) = findAll (before ++ normalizeChars cs) := by
  induction cs generalizing before with
  | nil => rfl
  | cons c cs ih =>
    rw [List.map_cons, Text.normalizeChars_cons (mask c) (cs.map mask),
      Text.normalizeChars_cons c cs]
    by_cases hc : isWhiteSpace c || isTyped c
    · -- The character belongs to the beginning of what comes next
      rw [mask, if_pos hc, ← List.append_assoc, ← List.append_assoc]
      exact ih _
    · obtain ⟨hspace, htyped⟩ := Bool.or_eq_false_iff.mp (Bool.eq_false_iff.mpr hc)
      obtain ⟨hne, hforeign⟩ := Text.normalizeChars_of_foreign hspace htyped
      obtain ⟨hne', hforeign'⟩ := Text.normalizeChars_of_foreign
        (show isWhiteSpace '?' = false by decide) (show isTyped '?' = false by decide)
      -- Both separate, so what comes next starts anew
      rw [mask, if_neg hc]
      calc findAll (before ++ (normalizeChars ['?'] ++ normalizeChars (cs.map mask)))
        _ = findAll before ++ findAll (normalizeChars (cs.map mask)) :=
          findAll_append_separators hne' hforeign' before _
        _ = findAll before ++ findAll (normalizeChars cs) := congrArg _ (ih [])
        _ = findAll (before ++ (normalizeChars [c] ++ normalizeChars cs)) :=
          (findAll_append_separators hne hforeign before _).symm

theorem foundIn_masked (text : String) : foundIn (masked text) = foundIn text := by
  have h := findAll_append_masked [] text.toList
  rw [List.nil_append, List.nil_append] at h
  simpa [foundIn, masked, Text.normalize] using h

end Spelling

/-- Texts in which the same is found have the same terms and the same fault. -/
theorem Grammar.parse_eq_of_foundIn_eq {text text' : String}
    (h : Spelling.foundIn text = Spelling.foundIn text') :
    lenient.parse text = lenient.parse text' ∨
      lenient.parse text = .error (.noTerm (Text.normalize text)) ∧
        lenient.parse text' = .error (.noTerm (Text.normalize text')) := by
  by_cases hnil : Spelling.foundIn text' = []
  · exact .inr ⟨parse_of_foundIn_eq_nil (h.trans hnil), parse_of_foundIn_eq_nil hnil⟩
  · have hne : Spelling.foundIn text ≠ [] := by rwa [h]
    exact .inl (by rw [parse_of_foundIn_ne_nil hne, parse_of_foundIn_ne_nil hnil, h])

/-- **No foreign character becomes notation.** The notation of a normal form is what was typed of it
in the text, in the same order and with the letter of dice made small. The spellings that are found
are made up of that, one behind the other. And a question mark for every foreign character changes
neither what is found nor the terms nor an error about a number. -/
theorem foreign_stays_foreign (text : String) :
    (Text.normalize text).toList.filter isNotation = typedNotation text.toList ∧
    ((Spelling.foundIn text).flatMap Spelling.chars).Sublist (typedNotation text.toList) ∧
    Spelling.foundIn (masked text) = Spelling.foundIn text ∧
    (∀ terms, Grammar.lenient.parse (masked text) = .ok terms ↔
      Grammar.lenient.parse text = .ok terms) ∧
    ∀ error : NotationError, error.isAboutNumber = true →
      (Grammar.lenient.parse (masked text) = .error error ↔
        Grammar.lenient.parse text = .error error) := by
  have hfound := Spelling.foundIn_masked text
  refine ⟨Text.filter_normalize text, Spelling.flatMap_chars_foundIn_sublist text, hfound,
    fun terms => ?_, fun error herror => ?_⟩
  · rcases Grammar.parse_eq_of_foundIn_eq hfound with h | ⟨hmasked, h⟩
    · rw [h]
    · simp [hmasked, h]
  · rcases Grammar.parse_eq_of_foundIn_eq hfound with h | ⟨hmasked, h⟩
    · rw [h]
    · -- That there are no terms is no error about a number
      have hne (t : String) : NotationError.noTerm t ≠ error := by
        rintro rfl
        cases herror
      simp [hmasked, h, hne]

/-- A Kelvin sign, a dotted capital and digits of another script among terms: a question mark for
each, and the count that is too great is still the error. -/
theorem foreign_stays_foreign_in_scripts :
    let text := "2D6\u212A3 D\u0130 \u06634d8, 101D4"
    masked text = "2D6?3 D? ?4d8? 101D4" ∧
      Grammar.lenient.parse text = .error (.count "101") ∧
      Grammar.lenient.parse (masked text) = .error (.count "101") := by
  intro text
  have hmasked : masked text = "2D6?3 D? ?4d8? 101D4" := by decide +kernel
  have herror : Grammar.lenient.parse text = .error (.count "101") := by decide +kernel
  exact ⟨hmasked, herror, ((foreign_stays_foreign text).2.2.2.2 _ rfl).mpr herror⟩

end DiceNotation
