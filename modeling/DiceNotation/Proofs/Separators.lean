import DiceNotation.Proofs.Checking
import DiceNotation.Proofs.Normal

/-!
# Separated Expressions

Only digits, the letter of dice and the two signs are part of any term. Every other
character that is no white space keeps what stands before it apart from what stands behind
it: for the lenient grammar the first text ends there like at the end of all text, and the
second one starts there like at the beginning (`Spelling.findAll_append_cons`). No such
character becomes part of notation by lowercasing (`Text.isNotation_of_mem_lowercase`).
Main statement: `separated_by_foreign`.
-/

namespace DiceNotation

open Text (normalizeChars)

/-! ## §1 What becomes of other characters -/

namespace Text

/-- Lowercasing leaves a code point as it is, or makes a small letter of ASCII of its
capital one, or ends above the letter of dice. -/
theorem lowerCodePoint_cases (n : Nat) :
    lowerCodePoint n = n ∨ ('A'.toNat ≤ n ∧ lowerCodePoint n = n + 32) ∨
      'd'.toNat < lowerCodePoint n := by
  have hruns : ∀ run ∈ caseRuns,
      run.first = 'A'.toNat ∧ run.image = run.first + 32 ∨ 'd'.toNat < run.image := by
    decide +kernel
  unfold lowerCodePoint
  cases hfind : caseRuns.find? (·.covers n) with
  | none => exact .inl rfl
  | some run =>
    have hcovers : run.first ≤ n := by
      have h := List.find?_some hfind
      simp only [CaseRun.covers, Bool.and_eq_true, decide_eq_true_eq] at h
      exact h.1.1
    show run.image + (n - run.first) = n ∨ _ ∧ run.image + (n - run.first) = n + 32 ∨
      _ < run.image + (n - run.first)
    rcases hruns run (List.mem_of_find?_eq_some hfind) with ⟨hfirst, himage⟩ | himage
    · exact .inr (.inl ⟨by omega, by omega⟩)
    · exact .inr (.inr (by omega))

/-- Of the characters of notation only the letter of dice lies among the letters. -/
theorem eq_letter_of_isNotation {c : Char} (h : isNotation c = true) (hletter : 'A'.toNat ≤ c.toNat) :
    c = 'd' := by
  rcases Bool.or_eq_true_iff.mp h with hdigit | hmem
  · -- All digits lie before the letters
    have hle : c.toNat ≤ '9'.toNat := (Char.isDigit_iff_toNat.mp hdigit).2
    have hlt : '9'.toNat < 'A'.toNat := by decide
    omega
  · -- The signs do, too
    simp only [decide_eq_true_eq, List.mem_cons, List.not_mem_nil, or_false] at hmem
    rcases hmem with rfl | rfl | rfl
    · rfl
    · exact absurd hletter (by decide)
    · exact absurd hletter (by decide)

theorem toNat_ofNat_of_isNotation {n : Nat} (h : isNotation (Char.ofNat n) = true) :
    (Char.ofNat n).toNat = n := by
  by_cases hn : n.isValidChar
  · rw [Char.ofNat, dif_pos hn]
    rfl
  · -- What is no code point is made a character that is not of notation
    rw [Char.ofNat, dif_neg hn] at h
    exact absurd h (by decide)

/-- No character disappears by lowercasing. -/
theorem lowercase_ne_nil (c : Char) : lowercase c ≠ [] := by
  unfold lowercase
  split <;> exact List.cons_ne_nil _ _

/-- No character becomes one of notation but those that are and the capital letter of dice. -/
theorem isNotation_of_mem_lowercase {c : Char} (hc : isNotation c = false) (hD : c ≠ 'D') :
    ∀ d ∈ lowercase c, isNotation d = false := by
  unfold lowercase
  split
  · have hall : ['i', '\u0307'].all (fun d => !isNotation d) = true := by decide
    intro d hd
    simpa using List.all_eq_true.mp hall d hd
  · intro d hd
    obtain rfl := List.mem_singleton.mp hd
    by_contra hnot
    have hnotation := Bool.not_eq_false _ ▸ hnot
    have hcode := toNat_ofNat_of_isNotation hnotation
    rcases lowerCodePoint_cases c.toNat with heq | ⟨hcapital, heq⟩ | hlt
    · -- The character itself would be of notation
      rw [heq, Char.ofNat_toNat, hc] at hnotation
      cases hnotation
    · -- A capital letter would become the letter of dice
      have hd := eq_letter_of_isNotation hnotation (by omega)
      rw [hd, heq] at hcode
      exact hD (Char.toNat_inj.mp (Nat.add_right_cancel hcode.symm))
    · have hletter : 'A'.toNat < 'd'.toNat := by decide
      have hd := eq_letter_of_isNotation hnotation (by omega)
      rw [hd] at hcode
      omega

end Text

/-! ## §2 Texts around a separator -/

/-- A text that starts with some characters up to another one is cut there. -/
theorem exists_eq_append_of_notMem {c : Char} {cs rest chars after : List Char}
    (h : cs ++ c :: rest = chars ++ after) (hc : c ∉ chars) :
    ∃ mid, cs = chars ++ mid ∧ mid ++ c :: rest = after := by
  rcases List.append_eq_append_iff.mp h with ⟨left, rfl, hleft⟩ | ⟨mid, rfl, rfl⟩
  · cases left with
    | nil => exact ⟨[], by simp, hleft⟩
    | cons b left =>
      -- The other character would be one of the first ones
      obtain ⟨rfl, -⟩ := List.cons.inj hleft
      exact absurd (List.mem_append_right cs List.mem_cons_self) hc
  · exact ⟨mid, rfl, rfl⟩

theorem dropWhile_append_cons {c : Char} (hc : c.isDigit = false) (cs rest : List Char) :
    (cs ++ c :: rest).dropWhile Char.isDigit = cs.dropWhile Char.isDigit ++ c :: rest := by
  induction cs with
  | nil => exact dropWhile_eq_self hc
  | cons b cs ih =>
    rw [List.cons_append, List.dropWhile_cons, List.dropWhile_cons]
    split
    · exact ih
    · rfl

namespace Spelling

section Separator

variable {c : Char} (hc : isNotation c = false)

include hc

/-- In front of a separator a modifier is missing where it is missing at the end. -/
theorem readModifier?_append_cons_eq_none {cs : List Char} (h : readModifier? cs = none)
    (rest : List Char) : readModifier? (cs ++ c :: rest) = none := by
  cases hread : readModifier? (cs ++ c :: rest) with
  | none => rfl
  | some read =>
    obtain ⟨m, after⟩ := read
    obtain ⟨htext, hdigit, hdice⟩ := readModifier?_eq_some_iff.mp hread
    have hmem : c ∉ m.chars := by
      intro hmem
      exact absurd (m.isNotation_of_mem c hmem) (by simp [hc])
    -- The modifier stands before the separator, so it would have been read there
    obtain ⟨mid, rfl, rfl⟩ := exists_eq_append_of_notMem htext hmem
    rw [startsDigit_append_cons (isDigit_of_not_isNotation hc)] at hdigit
    rw [startsDice_append_cons (isDigit_of_not_isNotation hc) (ne_letter_of_not_isNotation hc)]
      at hdice
    rw [readModifier?_eq_some_iff.mpr ⟨rfl, hdigit, hdice⟩] at h
    cases h

/-- In front of a separator a spelling is read as at the end. -/
theorem read?_append_cons_of_eq_some {cs after : List Char} {s : Spelling}
    (h : read? cs = some (s, after)) (rest : List Char) :
    read? (cs ++ c :: rest) = some (s, after ++ c :: rest) := by
  obtain ⟨rfl, hend, hnone⟩ := read?_eq_some_iff.mp h
  refine read?_eq_some_iff.mpr ⟨List.append_assoc .., ?_, fun hm => ?_⟩
  · exact hend.append_cons (isDigit_of_not_isNotation hc) (ne_letter_of_not_isNotation hc) rest
  · exact readModifier?_append_cons_eq_none hc (hnone hm) rest

theorem read?_append_cons_of_eq_none {cs : List Char} (h : read? cs = none) (rest : List Char) :
    read? (cs ++ c :: rest) = none := by
  have hdigit := isDigit_of_not_isNotation hc
  rw [read?_eq_none_iff, dropWhile_append_cons hdigit,
    startsDice_append_cons hdigit (ne_letter_of_not_isNotation hc)]
  exact read?_eq_none_iff.mp h

/-- **A separator keeps two texts apart**: the spellings of the whole are those of the first
text and then those of the second. -/
theorem findAll_append_cons (cs rest : List Char) :
    findAll (cs ++ c :: rest) = findAll cs ++ findAll rest := by
  induction cs using findAll.induct with
  | case1 =>
    -- The separator itself is passed over
    have hnone : read? ([] : List Char) = none := rfl
    rw [List.nil_append, findAll_cons_of_read?_eq_none (read?_append_cons_of_eq_none hc hnone rest)]
    simp [findAll]
  | case2 b cs s after hread ih =>
    rw [findAll_of_read?_eq_some hread,
      findAll_of_read?_eq_some (read?_append_cons_of_eq_some hc hread rest), ih, List.cons_append]
  | case3 b cs hread ih =>
    have hread' : read? (b :: (cs ++ c :: rest)) = none :=
      read?_append_cons_of_eq_none hc hread rest
    rw [findAll_cons_of_read?_eq_none hread, List.cons_append,
      findAll_cons_of_read?_eq_none hread', ih]

end Separator

/-- Any number of separators does what one of them does. -/
theorem findAll_append_separators {seps : List Char} (hne : seps ≠ [])
    (hseps : ∀ c ∈ seps, isNotation c = false) (cs rest : List Char) :
    findAll (cs ++ (seps ++ rest)) = findAll cs ++ findAll rest := by
  induction seps generalizing cs with
  | nil => exact absurd rfl hne
  | cons c seps ih =>
    obtain ⟨hc, hmore⟩ := List.forall_mem_cons.mp hseps
    rw [List.cons_append, findAll_append_cons hc]
    cases seps with
    | nil => rfl
    | cons b seps =>
      -- The further ones stand behind an empty text
      have hrest := ih (List.cons_ne_nil b seps) hmore []
      rw [List.nil_append] at hrest
      rw [hrest]
      simp [findAll]

end Spelling

/-! ## §3 Separated expressions -/

/-- What the lenient grammar finds in an expression. -/
def Spelling.foundIn (expression : String) : List Spelling :=
  findAll (Text.normalize expression).toList

theorem Grammar.parse_of_foundIn_ne_nil {text : String} (h : Spelling.foundIn text ≠ []) :
    lenient.parse text = (Spelling.foundIn text).mapM Spelling.toTerm := by
  rw [parse_lenient]
  exact if_neg h

theorem Grammar.parse_of_foundIn_eq_nil {text : String} (h : Spelling.foundIn text = []) :
    lenient.parse text = .error (.noTerm (Text.normalize text)) := by
  rw [parse_lenient]
  exact if_pos h

theorem Spelling.foundIn_ne_nil_of_parse {text : String} {terms : List Term}
    (h : Grammar.lenient.parse text = .ok terms) : foundIn text ≠ [] := by
  intro hnil
  cases h.symm.trans (Grammar.parse_of_foundIn_eq_nil hnil)

section Around

variable {c : Char} (hspace : Text.isWhiteSpace c = false) (hdigit : c.isDigit = false)
  (hother : c ∉ ['d', 'D', '+', '-'])

include hspace hdigit hother

/-- What is found around a foreign character is what is found in both texts. -/
theorem Spelling.foundIn_around (a b : String) :
    foundIn (a ++ c.toString ++ b) = foundIn a ++ foundIn b := by
  have hnotation : isNotation c = false := by
    simp only [List.mem_cons, List.not_mem_nil, or_false, not_or] at hother
    simp [isNotation, hdigit, hother]
  have hD : c ≠ 'D' := by
    rintro rfl
    exact hother (by decide)
  -- The character is lowercased by itself, and what becomes of it is no notation either
  have htext : (Text.normalize (a ++ c.toString ++ b)).toList =
      (Text.normalize a).toList ++ (Text.lowercase c ++ (Text.normalize b).toList) := by
    simp [Text.normalize, Text.normalizeChars_append, Text.normalizeChars_singleton hspace,
      Text.normalizeChars_cons c]
  rw [foundIn, htext, findAll_append_separators (Text.lowercase_ne_nil c)
    (Text.isNotation_of_mem_lowercase hnotation hD)]
  rfl

/-- **Foreign characters keep expressions apart.** Between two texts stands a character that is
neither white space nor one of notation. Then the lenient grammar finds in the whole what it finds
in the first text and after it what it finds in the second. So the answer is that of the one text
that has terms, or that there are none; if both have terms, the answer is the terms of both, or the
error of the first text that has one. -/
theorem separated_by_foreign (a b : String) :
    Spelling.foundIn (a ++ c.toString ++ b) = Spelling.foundIn a ++ Spelling.foundIn b ∧
    (Spelling.foundIn a = [] → Spelling.foundIn b ≠ [] →
      Grammar.lenient.parse (a ++ c.toString ++ b) = Grammar.lenient.parse b) ∧
    (Spelling.foundIn a ≠ [] → Spelling.foundIn b = [] →
      Grammar.lenient.parse (a ++ c.toString ++ b) = Grammar.lenient.parse a) ∧
    (Spelling.foundIn a = [] → Spelling.foundIn b = [] →
      Grammar.lenient.parse (a ++ c.toString ++ b) =
        .error (.noTerm (Text.normalize (a ++ c.toString ++ b)))) ∧
    (Spelling.foundIn a ≠ [] → Spelling.foundIn b ≠ [] →
      Grammar.lenient.parse (a ++ c.toString ++ b) = do
        let terms ← Grammar.lenient.parse a
        let terms' ← Grammar.lenient.parse b
        return terms ++ terms') := by
  have hfound := Spelling.foundIn_around hspace hdigit hother a b
  refine ⟨hfound, fun ha hb => ?_, fun ha hb => ?_, fun ha hb => ?_, fun ha hb => ?_⟩
  · rw [ha, List.nil_append] at hfound
    have hne : Spelling.foundIn (a ++ c.toString ++ b) ≠ [] := by rwa [hfound]
    rw [Grammar.parse_of_foundIn_ne_nil hne, hfound, Grammar.parse_of_foundIn_ne_nil hb]
  · rw [hb, List.append_nil] at hfound
    have hne : Spelling.foundIn (a ++ c.toString ++ b) ≠ [] := by rwa [hfound]
    rw [Grammar.parse_of_foundIn_ne_nil hne, hfound, Grammar.parse_of_foundIn_ne_nil ha]
  · rw [ha, hb, List.append_nil] at hfound
    exact Grammar.parse_of_foundIn_eq_nil hfound
  · have hne : Spelling.foundIn (a ++ c.toString ++ b) ≠ [] := by
      rw [hfound]
      exact List.append_ne_nil_of_left_ne_nil ha _
    rw [Grammar.parse_of_foundIn_ne_nil hne, hfound, Grammar.parse_of_foundIn_ne_nil ha,
      Grammar.parse_of_foundIn_ne_nil hb, List.mapM_append]

end Around

/-- The small form of the separator has two characters, and the modifier before it stays one. -/
theorem separated_by_dotted_capital :
    Text.isWhiteSpace '\u0130' = false ∧ ('\u0130' : Char).isDigit = false ∧
      '\u0130' ∉ ['d', 'D', '+', '-'] ∧
      Grammar.lenient.parse ("2D6 - 3" ++ ('\u0130' : Char).toString ++ "1d4") =
        .ok [⟨2, 6, -3, by decide, by decide⟩, ⟨1, 4, 0, by decide, by decide⟩] := by
  have hspace : Text.isWhiteSpace '\u0130' = false := by decide
  have hdigit : ('\u0130' : Char).isDigit = false := by decide
  have hother : '\u0130' ∉ ['d', 'D', '+', '-'] := by decide
  have hterms : Grammar.lenient.parse "2D6 - 3" = .ok [⟨2, 6, -3, by decide, by decide⟩] := by
    decide +kernel
  have hterms' : Grammar.lenient.parse "1d4" = .ok [⟨1, 4, 0, by decide, by decide⟩] := by
    decide +kernel
  refine ⟨hspace, hdigit, hother, ?_⟩
  obtain ⟨-, -, -, -, hboth⟩ := separated_by_foreign hspace hdigit hother "2D6 - 3" "1d4"
  rw [hboth (Spelling.foundIn_ne_nil_of_parse hterms) (Spelling.foundIn_ne_nil_of_parse hterms'),
    hterms, hterms']
  rfl

end DiceNotation
