import DiceNotation.Proofs.Placement
import Mathlib.Order.ConditionallyCompleteLattice.Basic
import Mathlib.Order.Lattice.Nat

/-!
# Beginnings of Sums

A text that is refused may well begin as some sum does: `2d6-` is no sum, but `2d6-1` is. How
far a text can be kept is how far it is a beginning of some sum. The candidate that diagnoses
a refusal never got less far (`le_reach_ofSum`), so the diagnosis does not end before the place
where the text goes wrong (`refusal_not_before_problem`).

The argument is that the reading only depends on the characters it got to. Where the candidate
of a part of the grammar did not get to the end of a beginning, the part is read in the same
way whatever follows the beginning. There is one exception: a `d` at the very end of a beginning
may take the digits before it for a count of dice. Then it is the next term that gets to the end.
-/

namespace DiceNotation

open String (utf8Len utf8Len_nil utf8Len_cons utf8Len_append)
open Text (Numeral)

variable {u w : List Char}

/-! ## §1 Bytes of terms -/

theorem utf8Size_letter : ('d' : Char).utf8Size = 1 := by decide

theorem utf8Len_letter : utf8Len ['d'] = 1 := by decide

theorem Sign.utf8Size_char (sign : Sign) : sign.char.utf8Size = 1 := by
  cases sign <;> decide

/-- A modifier is written with characters of one byte. -/
theorem SignedNumeral.utf8Len_chars (m : SignedNumeral) :
    utf8Len m.chars = m.chars.length := by
  rw [chars, utf8Len_cons, m.sign.utf8Size_char, utf8Len_digits m.size.isDigit_of_mem,
    List.length_cons]

/-- A term is written with characters of one byte. -/
theorem Spelling.utf8Len_chars (s : Spelling) : utf8Len s.chars = s.chars.length := by
  have hmodifier : utf8Len s.modifierChars = s.modifierChars.length := by
    cases h : s.modifier with
    | none => simp [modifierChars_of_eq_none h]
    | some m => rw [modifierChars_of_eq_some h, m.utf8Len_chars]
  rw [chars_eq, utf8Len_append, utf8Len_digits s.isDigit_of_mem_countChars, utf8Len_cons,
    utf8Size_letter, utf8Len_append, utf8Len_digits s.sides.isDigit_of_mem, hmodifier]
  simp only [List.length_append, List.length_cons]

/-! ## §2 What the first characters decide -/

theorem startsDigit_append_of_ne_nil (h : u ≠ []) (v : List Char) :
    startsDigit (u ++ v) = startsDigit u := by
  cases u with
  | nil => exact absurd rfl h
  | cons c u => rfl

/-- Only behind a single `d` the continuation decides whether dice stand at the front. -/
theorem Spelling.startsDice_append_of_ne (h : u ≠ []) (hd : u ≠ ['d']) (v : List Char) :
    startsDice (u ++ v) = startsDice u := by
  cases u with
  | nil => exact absurd rfl h
  | cons c u =>
    by_cases hc : c = 'd'
    · subst hc
      have hu : u ≠ [] := fun hnil => hd (by rw [hnil])
      rw [List.cons_append, startsDice_cons_d, startsDice_cons_d, startsDigit_append_of_ne_nil hu]
    · rw [List.cons_append, startsDice_cons_of_ne hc, startsDice_cons_of_ne hc]

/-- A run of digits that ends within a beginning ends at a character of it. -/
theorem exists_run_of_lt {offset : Nat}
    (h : (Position.afterDigits ⟨offset, u ++ w⟩).offset < offset + utf8Len u) :
    ∃ ds c u', (∀ d ∈ ds, d.isDigit = true) ∧ c.isDigit = false ∧ u = ds ++ c :: u' := by
  by_cases hall : ∀ c ∈ u, c.isDigit = true
  · -- The run cannot be shorter than a beginning of digits only
    rw [Position.afterDigits, List.takeWhile_append_of_pos hall, utf8Len_digits hall] at h
    simp only [List.length_append] at h
    omega
  · cases hdrop : u.dropWhile Char.isDigit with
    | nil =>
      have htake := List.takeWhile_append_dropWhile (p := Char.isDigit) (l := u)
      rw [hdrop, List.append_nil] at htake
      exact absurd (htake ▸ List.all_eq_true.mp List.all_takeWhile) hall
    | cons c u' =>
      refine ⟨u.takeWhile Char.isDigit, c, u', List.all_eq_true.mp List.all_takeWhile, ?_, ?_⟩
      · have hfront := startsDigit_dropWhile u
        rwa [hdrop] at hfront
      · rw [← hdrop, List.takeWhile_append_dropWhile]

/-! ## §3 How far candidates got -/

namespace Candidate

theorem reach_furthest (earlier later : Candidate) :
    (earlier.furthest later).reach = max earlier.reach later.reach := by
  unfold furthest
  split
  · next h => exact (Nat.max_eq_right (Nat.le_of_lt h)).symm
  · next h =>
    have hle := Nat.le_of_not_lt h
    split <;> exact (Nat.max_eq_left hle).symm

@[simp] theorem reach_named (name : Expectation) (start : Position) (c : Candidate) :
    (c.named name start).reach = c.reach := by
  unfold named
  split <;> rfl

@[simp] theorem reach_here (p : Position) (expected : List Expectation) :
    (here p expected).reach = p.offset := rfl

variable {p : Position} {rest : List Char}

theorem reach_ofModifier_of_no_sign (h : Sign.read? p.rest = none) :
    (ofModifier p).reach = p.next := by
  simp [ofModifier, h]

/-- Behind a sign the reading gets to the end of the digits, and if dice stand there, behind their
letter. -/
theorem le_reach_ofModifier_of_sign {sgn : Sign} (h : Sign.read? p.rest = some (sgn, rest)) :
    (Position.afterDigits ⟨p.offset + 1, rest⟩).offset ≤ (ofModifier p).reach ∧
      ((Numeral.read? rest).isSome →
        Spelling.startsDice (Position.afterDigits ⟨p.offset + 1, rest⟩).rest = true →
          (Position.afterDigits ⟨p.offset + 1, rest⟩).offset < (ofModifier p).reach) := by
  simp only [ofModifier, h, reach_named]
  split
  · exact ⟨Nat.le_succ _, fun _ _ => Nat.lt_succ_self _⟩
  · next hcount =>
    refine ⟨Nat.le_refl _, fun hsize hdice => ?_⟩
    exact absurd (by simp [hsize, hdice]) hcount

theorem offset_le_reach_ofModifier (p : Position) : p.offset ≤ (ofModifier p).reach := by
  cases h : Sign.read? p.rest with
  | none =>
    rw [reach_ofModifier_of_no_sign h]
    exact p.offset_le_next
  | some read =>
    have hstop := (le_reach_ofModifier_of_sign h).1
    simp only [Position.afterDigits] at hstop
    omega

theorem offset_le_reach_ofTerm (p : Position) : p.afterDigits.offset ≤ (ofTerm p).reach := by
  simp only [ofTerm, reach_named]
  split
  · split <;> simp only [reach_furthest, reach_here] <;> omega
  · simp only [reach_furthest, reach_here]
    omega

/-- Behind the letter the reading gets to the end of the sides. -/
theorem sides_le_reach_ofTerm (h : p.afterDigits.rest = 'd' :: rest) :
    (Position.afterDigits ⟨p.afterDigits.offset + 1, rest⟩).offset ≤ (ofTerm p).reach := by
  simp only [ofTerm, reach_named, h]
  split <;> simp only [reach_furthest, reach_here] <;> omega

/-- The reading gets behind the letter. -/
theorem letter_lt_reach_ofTerm (h : p.afterDigits.rest = 'd' :: rest) :
    p.afterDigits.offset < (ofTerm p).reach := by
  have hsides := sides_le_reach_ofTerm h
  exact Nat.lt_of_lt_of_le (Nat.lt_of_succ_le (Nat.le_add_right _ _)) hsides

/-- Behind the sides the reading gets as far as for a modifier. -/
theorem modifier_le_reach_ofTerm (h : p.afterDigits.rest = 'd' :: rest)
    (hsides : (Numeral.read? rest).isSome) :
    (ofModifier (Position.afterDigits ⟨p.afterDigits.offset + 1, rest⟩)).reach ≤
      (ofTerm p).reach := by
  simp only [ofTerm, reach_named, h, hsides, if_true, reach_furthest]
  exact Nat.le_max_right _ _

end Candidate

/-! ## §4 What is decided within a beginning -/

namespace Spelling

variable {offset : Nat}

/-- The reading gets to the end of every beginning of a modifier. -/
theorem le_reach_ofModifier_of_beginning {m : SignedNumeral} {x : List Char} (h : m.chars = u ++ x)
    (offset : Nat) (w : List Char) :
    offset + utf8Len u ≤ (Candidate.ofModifier ⟨offset, u ++ w⟩).reach := by
  cases u with
  | nil => exact Candidate.offset_le_reach_ofModifier ⟨offset, [] ++ w⟩
  | cons c ds =>
    obtain ⟨rfl, hsize⟩ := List.cons.inj h
    have hds : ∀ d ∈ ds, d.isDigit = true := by
      intro d hd
      refine m.size.isDigit_of_mem d ?_
      rw [hsize]
      exact List.mem_append_left x hd
    have hread : Sign.read? (m.sign.char :: ds ++ w) = some (m.sign, ds ++ w) :=
      Sign.read?_eq_some_iff.mpr rfl
    have hstop := (Candidate.le_reach_ofModifier_of_sign (p := ⟨offset, _⟩) hread).1
    rw [utf8Len_cons, m.sign.utf8Size_char, utf8Len_digits hds]
    simp only [Position.afterDigits, List.takeWhile_append_of_pos hds, List.length_append] at hstop
    omega

/-- Where dice stand behind a modifier, the reading gets behind their letter. -/
theorem lt_reach_ofModifier_of_dice (m : SignedNumeral) (offset : Nat) {rest : List Char}
    (h : startsDice rest = true) :
    offset + m.chars.length < (Candidate.ofModifier ⟨offset, m.chars ++ rest⟩).reach := by
  have hdigit := startsDigit_of_startsDice h
  have hread : Sign.read? (m.chars ++ rest) = some (m.sign, m.size.digits ++ rest) :=
    Sign.read?_eq_some_iff.mpr rfl
  have hsize : Numeral.read? (m.size.digits ++ rest) = some (m.size, rest) :=
    Numeral.read?_eq_some_iff.mpr ⟨rfl, hdigit⟩
  have hstop := (Candidate.le_reach_ofModifier_of_sign (p := ⟨offset, _⟩) hread).2
  rw [Position.afterDigits_digits m.size.isDigit_of_mem hdigit] at hstop
  have hlt : offset + 1 + m.size.digits.length <
      (Candidate.ofModifier ⟨offset, m.chars ++ rest⟩).reach := hstop (by rw [hsize]; rfl) h
  have hlength : m.chars.length = m.size.digits.length + 1 := rfl
  omega

/-- No modifier is read in front of any continuation, if the reading did not get to the end of
the beginning. -/
theorem readModifier?_eq_none_of_reach_lt (h : readModifier? (u ++ w) = none)
    (hreach : (Candidate.ofModifier ⟨offset, u ++ w⟩).reach < offset + utf8Len u)
    (v : List Char) : readModifier? (u ++ v) = none := by
  cases hv : readModifier? (u ++ v) with
  | none => rfl
  | some read =>
    exfalso
    obtain ⟨m, rest⟩ := read
    obtain ⟨htext, hdigit, hdice⟩ := readModifier?_eq_some_iff.mp hv
    rcases List.append_eq_append_iff.mp htext with ⟨x, hm, -⟩ | ⟨u', rfl, rfl⟩
    · -- The beginning ends within the modifier
      exact absurd hreach (Nat.not_lt.mpr (le_reach_ofModifier_of_beginning hm _ w))
    · have hu' : u' ≠ [] := by
        rintro rfl
        have hm : m.chars = (m.chars ++ []) ++ [] := by simp
        exact absurd hreach (Nat.not_lt.mpr (le_reach_ofModifier_of_beginning hm _ w))
      rw [startsDigit_append_of_ne_nil hu'] at hdigit
      cases hdice' : startsDice (u' ++ w) with
      | false =>
        -- Then the modifier is read in front of this continuation, too
        have hw : readModifier? (m.chars ++ u' ++ w) = some (m, u' ++ w) :=
          readModifier?_eq_some_iff.mpr ⟨List.append_assoc _ _ _,
            (startsDigit_append_of_ne_nil hu' w).trans hdigit, hdice'⟩
        rw [hw] at h
        cases h
      | true =>
        -- The continuations can only differ behind a letter, and the reading gets there
        have hletter : u' = ['d'] := by
          by_contra hne
          rw [startsDice_append_of_ne hu' hne] at hdice hdice'
          rw [hdice] at hdice'
          cases hdice'
        subst hletter
        have hlt := lt_reach_ofModifier_of_dice m offset hdice'
        rw [List.append_assoc, utf8Len_append, m.utf8Len_chars, utf8Len_letter] at hreach
        omega

/-- No term is read in front of any continuation, if the reading did not get to the end of the
beginning. -/
theorem read?_eq_none_of_reach_lt (h : read? (u ++ w) = none)
    (hreach : (Candidate.ofTerm ⟨offset, u ++ w⟩).reach < offset + utf8Len u) (v : List Char) :
    read? (u ++ v) = none := by
  have hrun := Nat.lt_of_le_of_lt (Candidate.offset_le_reach_ofTerm ⟨offset, u ++ w⟩) hreach
  obtain ⟨ds, c, u', hds, hc, rfl⟩ := exists_run_of_lt hrun
  have hdrop : ∀ v, (ds ++ c :: u' ++ v).dropWhile Char.isDigit = (c :: u') ++ v := by
    intro v
    rw [List.append_assoc]
    exact dropWhile_digits hds hc
  -- The reading gets behind a letter
  have hletter : c :: u' ≠ ['d'] := by
    intro heq
    obtain ⟨rfl, rfl⟩ := List.cons.inj heq
    have hdigits : Position.afterDigits ⟨offset, ds ++ ['d'] ++ w⟩ =
        ⟨offset + ds.length, ['d'] ++ w⟩ := by
      rw [List.append_assoc]
      exact Position.afterDigits_digits hds rfl offset
    have hlt := Candidate.letter_lt_reach_ofTerm (congrArg Position.rest hdigits)
    rw [hdigits] at hlt
    rw [utf8Len_append, utf8Len_digits hds, utf8Len_letter] at hreach
    exact absurd hlt (Nat.not_lt.mpr (Nat.le_of_lt_succ hreach))
  rw [read?_eq_none_iff, hdrop, startsDice_append_of_ne (List.cons_ne_nil c u') hletter] at h ⊢
  exact h

/-- The reading gets to the end of a term that is read, and if it has no modifier as far as it
gets for one. -/
theorem le_reach_ofTerm_of_read? {cs rest : List Char} {s : Spelling}
    (h : read? cs = some (s, rest)) (offset : Nat) :
    offset + s.chars.length ≤ (Candidate.ofTerm ⟨offset, cs⟩).reach ∧
      (s.modifier = none → (Candidate.ofModifier ⟨offset + s.chars.length, rest⟩).reach ≤
        (Candidate.ofTerm ⟨offset, cs⟩).reach) := by
  obtain ⟨rfl, hend, -⟩ := read?_eq_some_iff.mp h
  have hcount : Position.afterDigits ⟨offset, s.chars ++ rest⟩ =
      ⟨offset + s.countChars.length, 'd' :: (s.sides.digits ++ (s.modifierChars ++ rest))⟩ := by
    rw [chars_append_eq]
    exact Position.afterDigits_digits s.isDigit_of_mem_countChars rfl offset
  have hread : Numeral.read? (s.sides.digits ++ (s.modifierChars ++ rest)) =
      some (s.sides, s.modifierChars ++ rest) :=
    Numeral.read?_eq_some_iff.mpr ⟨rfl, hend.sides_end⟩
  have hsides := Candidate.modifier_le_reach_ofTerm (congrArg Position.rest hcount)
    (by rw [hread]; rfl)
  rw [hcount, Position.afterDigits_digits s.sides.isDigit_of_mem hend.sides_end] at hsides
  have hlength : s.chars.length =
      s.countChars.length + 1 + s.sides.digits.length + s.modifierChars.length := by
    simp only [chars_eq, List.length_append, List.length_cons]
    omega
  cases hm : s.modifier with
  | none =>
    have hstop : offset + s.chars.length =
        offset + s.countChars.length + 1 + s.sides.digits.length := by
      rw [hlength, modifierChars_of_eq_none hm, List.length_nil]
      omega
    rw [modifierChars_of_eq_none hm, List.nil_append, ← hstop] at hsides
    have hstart := Candidate.offset_le_reach_ofModifier ⟨offset + s.chars.length, rest⟩
    exact ⟨Nat.le_trans hstart hsides, fun _ => hsides⟩
  | some m =>
    rw [modifierChars_of_eq_some hm] at hsides hlength
    have hstop := le_reach_ofModifier_of_beginning (List.append_nil m.chars).symm
      (offset + s.countChars.length + 1 + s.sides.digits.length) rest
    have hle := Nat.le_trans hstop hsides
    rw [SignedNumeral.utf8Len_chars] at hle
    exact ⟨by omega, fun hnone => nomatch hnone⟩

/-- A term that is read within a beginning is read in front of any continuation, if the reading
did not get to the end of the beginning. Only a `d` that ends the beginning may make a difference. -/
theorem read?_append_of_reach_lt {s : Spelling} {rest : List Char}
    (h : read? (u ++ w) = some (s, rest))
    (hreach : (Candidate.ofTerm ⟨offset, u ++ w⟩).reach < offset + utf8Len u) :
    ∃ u', u = s.chars ++ u' ∧ rest = u' ++ w ∧
      (u' ≠ ['d'] → ∀ v, read? (u ++ v) = some (s, u' ++ v)) := by
  obtain ⟨hchars, hmodifier⟩ := le_reach_ofTerm_of_read? h offset
  obtain ⟨htext, hend, hnone⟩ := read?_eq_some_iff.mp h
  rcases List.append_eq_append_iff.mp htext with ⟨x, hx, -⟩ | ⟨u', rfl, rfl⟩
  · -- The term cannot end behind the beginning
    have hlength := s.utf8Len_chars
    rw [hx, utf8Len_append, ← hx] at hlength
    omega
  refine ⟨u', rfl, rfl, fun hletter v => ?_⟩
  have hu' : u' ≠ [] := by
    rintro rfl
    rw [utf8Len_append, utf8Len_chars, utf8Len_nil] at hreach
    omega
  refine read?_eq_some_iff.mpr ⟨List.append_assoc _ _ _, ?_, fun hm => ?_⟩
  · -- What follows the term starts in the same way
    have hdigit : startsDigit (u' ++ v) = startsDigit (u' ++ w) := by
      rw [startsDigit_append_of_ne_nil hu', startsDigit_append_of_ne_nil hu']
    have hdice : startsDice (u' ++ v) = startsDice (u' ++ w) := by
      rw [startsDice_append_of_ne hu' hletter, startsDice_append_of_ne hu' hletter]
    constructor
    case sides_end =>
      have hfront : s.modifierChars ++ u' ≠ [] := by simp [hu']
      have hsides := hend.sides_end
      rw [← List.append_assoc, startsDigit_append_of_ne_nil hfront] at hsides ⊢
      exact hsides
    case modifier_end => exact fun m hm => hdigit ▸ hend.modifier_end m hm
    case modifier_kept => exact fun m hm => hdice ▸ hend.modifier_kept m hm
  · -- The reading for a modifier did not get to the end of the beginning either
    rw [utf8Len_append, utf8Len_chars, ← Nat.add_assoc] at hreach
    exact readModifier?_eq_none_of_reach_lt (hnone hm)
      (Nat.lt_of_le_of_lt (hmodifier hm) hreach) v

end Spelling

/-! ## §5 What is decided by the further terms -/

namespace Candidate

variable {p : Position} {rest : List Char}

theorem held_le_reach_ofJoined (p : Position) (held : Candidate) :
    held.reach ≤ (ofJoined p held).reach := by
  simp only [ofJoined, ofPlus, reach_furthest]
  split
  · exact Nat.le_max_left _ _
  · rw [reach_furthest]
    omega

theorem term_le_reach_ofJoined (p : Position) (held : Candidate) :
    (ofTerm p.afterPlus).reach ≤ (ofJoined p held).reach := by
  rw [ofJoined, reach_furthest]
  exact Nat.le_max_right _ _

/-- The reading never gets less far. -/
theorem joined_le_reach_ofMore (p : Position) (held : Candidate) :
    (ofJoined p held).reach ≤ (ofMore p held).reach := by
  induction p, held using ofMore.induct with
  | case1 p held next c s rest hread ih =>
    rw [ofMore_of_read?_eq_some hread]
    exact Nat.le_trans (held_le_reach_ofJoined _ _) ih
  | case2 p held next hread =>
    rw [ofMore_of_read?_eq_none hread, reach_furthest]
    exact Nat.le_max_left _ _

theorem term_le_reach_ofMore (p : Position) (held : Candidate) :
    (ofTerm p.afterPlus).reach ≤ (ofMore p held).reach :=
  Nat.le_trans (term_le_reach_ofJoined p held) (joined_le_reach_ofMore p held)

end Candidate

namespace Spelling

variable {offset : Nat}

/-- A term that is read within a beginning is read in front of any continuation, if the reading for
the further terms did not get to the end of the beginning. -/
theorem read?_append_of_reach_ofMore_lt {s : Spelling} {rest : List Char} {held : Candidate}
    (h : read? (u ++ w) = some (s, rest))
    (hterm : (Candidate.ofTerm ⟨offset, u ++ w⟩).reach ≤ held.reach)
    (hreach : (Candidate.ofMore ⟨offset + s.chars.length, rest⟩ held).reach <
      offset + utf8Len u) :
    ∃ u', rest = u' ++ w ∧ offset + utf8Len u = offset + s.chars.length + utf8Len u' ∧
      ∀ v, read? (u ++ v) = some (s, u' ++ v) := by
  have hheld : held.reach ≤ (Candidate.ofMore ⟨offset + s.chars.length, rest⟩ held).reach :=
    Nat.le_trans (Candidate.held_le_reach_ofJoined _ _) (Candidate.joined_le_reach_ofMore _ _)
  obtain ⟨u', rfl, rfl, hkept⟩ := read?_append_of_reach_lt h
    (Nat.lt_of_le_of_lt (Nat.le_trans hterm hheld) hreach)
  rw [utf8Len_append, utf8Len_chars, ← Nat.add_assoc] at hreach ⊢
  refine ⟨u', rfl, rfl, hkept ?_⟩
  -- The next term gets behind a letter at the end of the beginning
  rintro rfl
  have hletter : offset + s.chars.length <
      (Candidate.ofTerm ⟨offset + s.chars.length, 'd' :: w⟩).reach :=
    Candidate.letter_lt_reach_ofTerm (p := ⟨offset + s.chars.length, 'd' :: w⟩) rfl
  have hnext := Candidate.term_le_reach_ofMore ⟨offset + s.chars.length, 'd' :: w⟩ held
  exact absurd (Nat.lt_of_lt_of_le hletter hnext) (Nat.not_lt.mpr (Nat.le_of_lt_succ hreach))

/-- The reading always gets to where it starts. -/
theorem ne_nil_of_reach_ofMore_lt {p : Position} {held : Candidate}
    (h : (Candidate.ofMore p held).reach < p.offset + utf8Len u) : u ≠ [] := by
  rintro rfl
  have hterm := Candidate.term_le_reach_ofMore p held
  have hstart := Candidate.offset_le_reach_ofTerm p.afterPlus
  have hplus : p.offset ≤ p.afterPlus.offset := by
    unfold Position.afterPlus
    split
    · exact Nat.le_succ _
    · exact Nat.le_refl _
  simp only [Position.afterDigits] at hstart
  rw [utf8Len_nil] at h
  omega

/-- Behind the optional `+` at the front of a beginning, the rest of it is a beginning. -/
theorem exists_afterPlus {p : Position} (hp : p.rest = u ++ w) (hu : u ≠ []) :
    ∃ offset u', p.afterPlus = ⟨offset, u' ++ w⟩ ∧
      offset + utf8Len u' = p.offset + utf8Len u ∧
        ∀ v, Sign.dropPlus (u ++ v) = u' ++ v := by
  obtain ⟨c, u, rfl⟩ := List.exists_cons_of_ne_nil hu
  by_cases hc : c = '+'
  · subst hc
    refine ⟨p.offset + 1, u, ?_, ?_, fun v => rfl⟩
    · simp [Position.afterPlus, hp]
    · have hplus : ('+' : Char).utf8Size = 1 := by decide
      rw [utf8Len_cons, hplus, Nat.add_assoc, Nat.add_comm 1]
  · refine ⟨p.offset, c :: u, ?_, rfl, fun v => Sign.dropPlus_cons_of_ne hc (u ++ v)⟩
    obtain ⟨offset, rest⟩ := p
    obtain rfl := hp
    simp [Position.afterPlus, hc]

/-- The further terms are read in front of no continuation, if they are not read and the reading
for them did not get to the end of the beginning. -/
theorem readMore?_eq_none_of_reach_lt (p : Position) (held : Candidate) :
    ∀ u, p.rest = u ++ w → readMore? p.rest = none →
      (Candidate.ofMore p held).reach < p.offset + utf8Len u →
        ∀ v, readMore? (u ++ v) = none := by
  induction p, held using Candidate.ofMore.induct with
  | case1 p held next c s rest hread ih =>
    intro u hp hnone hreach v
    have hread : read? p.afterPlus.rest = some (s, rest) := hread
    obtain ⟨offset, u', hnext, hlength, hplus⟩ :=
      exists_afterPlus hp (ne_nil_of_reach_ofMore_lt hreach)
    rw [Candidate.ofMore_of_read?_eq_some hread, ← hlength] at hreach
    rw [readMore?_of_read?_eq_some (p.rest_afterPlus ▸ hread), Option.map_eq_none_iff] at hnone
    have hterm := Candidate.term_le_reach_ofJoined p held
    -- The term is read whatever follows, and the terms behind it by induction
    rw [hnext] at hread hreach hterm
    obtain ⟨u'', rfl, hlength', hkept⟩ := read?_append_of_reach_ofMore_lt hread hterm hreach
    rw [hlength'] at hreach
    have hmore : readMore? (u'' ++ v) = none := by
      refine ih u'' rfl hnone ?_ v
      show (Candidate.ofMore ⟨p.afterPlus.offset + s.chars.length, u'' ++ w⟩ _).reach <
        p.afterPlus.offset + s.chars.length + utf8Len u''
      rw [hnext]
      exact hreach
    rw [readMore?_of_read?_eq_some ((congrArg read? (hplus v)).trans (hkept v)), hmore]
    rfl
  | case2 p held next hread =>
    intro u hp hnone hreach v
    have hread : read? p.afterPlus.rest = none := hread
    have hu := ne_nil_of_reach_ofMore_lt hreach
    obtain ⟨offset, u', hnext, hlength, hplus⟩ := exists_afterPlus hp hu
    have hterm := Nat.lt_of_le_of_lt (Candidate.term_le_reach_ofMore p held) hreach
    rw [hnext] at hread hterm
    rw [← hlength] at hterm
    have hnone' := read?_eq_none_of_reach_lt hread hterm v
    rw [← hplus v] at hnone'
    obtain ⟨c, u, rfl⟩ := List.exists_cons_of_ne_nil hu
    exact readMore?_cons_of_read?_eq_none hnone'

/-- **Refusals are final**: where the candidate of a refusal did not get to the end of a beginning,
no continuation of the beginning is a sum. -/
theorem readSum?_eq_none_of_reach_lt (h : readSum? (u ++ w) = none)
    (hreach : (Candidate.ofSum (u ++ w)).reach < utf8Len u) (v : List Char) :
    readSum? (u ++ v) = none := by
  cases hread : read? (u ++ w) with
  | none =>
    simp only [Candidate.ofSum, hread] at hreach
    rw [← Nat.zero_add (utf8Len u)] at hreach
    have hnone := read?_eq_none_of_reach_lt hread hreach v
    simp [readSum?, hnone]
  | some read =>
    obtain ⟨s, rest⟩ := read
    simp only [Candidate.ofSum, hread] at hreach
    rw [readSum?_of_read?_eq_some hread, Option.map_eq_none_iff] at h
    rw [← Nat.zero_add (utf8Len u), ← Nat.zero_add s.chars.length] at hreach
    obtain ⟨u', rfl, hlength, hkept⟩ :=
      read?_append_of_reach_ofMore_lt hread (Nat.le_refl _) hreach
    rw [hlength] at hreach
    rw [readSum?_of_read?_eq_some (hkept v),
      readMore?_eq_none_of_reach_lt _ _ u' rfl h hreach v]
    rfl

end Spelling

/-! ## §6 The longest beginning -/

/-- A text begins a sum if some continuation turns it into one. -/
def Spelling.BeginsSum (u : List Char) : Prop :=
  ∃ more, (Spelling.readSum? (u ++ more)).isSome = true

/-- The lengths in bytes of the prefixes of a text that begin a sum. -/
def beginningLengths (cs : List Char) : Set Nat :=
  {n | ∃ u, u <+: cs ∧ Spelling.BeginsSum u ∧ utf8Len u = n}

theorem Spelling.beginsSum_nil : BeginsSum [] := by
  refine ⟨['d', '1'], ?_⟩
  have hread : read? ['d', '1'] = some (⟨none, ⟨['1'], by decide, by decide⟩, none⟩, []) := by
    decide
  rw [List.nil_append, readSum?_of_read?_eq_some hread, readMore?]
  rfl

/-- The candidate of a refusal got to the end of every prefix that begins a sum. -/
theorem le_reach_ofSum {cs : List Char} (h : Spelling.readSum? cs = none) {n : Nat}
    (hn : n ∈ beginningLengths cs) : n ≤ (Candidate.ofSum cs).reach := by
  obtain ⟨u, ⟨w, rfl⟩, ⟨v, hv⟩, rfl⟩ := hn
  by_contra hlt
  rw [Spelling.readSum?_eq_none_of_reach_lt h (Nat.not_le.mp hlt) v] at hv
  cases hv

/-- Every text has a longest prefix that begins a sum. -/
theorem exists_isGreatest_beginningLengths (cs : List Char) :
    ∃ q, IsGreatest (beginningLengths cs) q := by
  have hne : (beginningLengths cs).Nonempty := ⟨0, [], List.nil_prefix, Spelling.beginsSum_nil, rfl⟩
  have hbound : BddAbove (beginningLengths cs) := by
    refine ⟨utf8Len cs, ?_⟩
    rintro _ ⟨u, ⟨w, rfl⟩, -, rfl⟩
    rw [utf8Len_append]
    exact Nat.le_add_right _ _
  exact ⟨_, Nat.sSup_mem hne hbound, fun n hn => le_csSup hbound hn⟩

/-- **No diagnosis lies wholly before the problem.** If a text is no sum, take the longest of its
prefixes that some continuation turns into a sum. The one syntax error of the refusal, which is the
candidate that the attempts have left, does not end before the end of this prefix. -/
theorem refusal_not_before_problem (text : String)
    (h : Spelling.readSum? text.toList = none) :
    ∃ c q, Attempt.sum.run ⟨0, text.toList⟩ none = ⟨none, some c⟩ ∧
      Grammar.strict.spellings text = .error (.malformed text [c.toSyntaxError]) ∧
        IsGreatest (beginningLengths text.toList) q ∧ q ≤ c.toSyntaxError.stop := by
  obtain ⟨q, hq⟩ := exists_isGreatest_beginningLengths text.toList
  refine ⟨Candidate.ofSum text.toList, q, Attempt.run_sum_of_refused h, ?_, hq, ?_⟩
  · simp only [Grammar.spellings, h]
  · calc q
      _ ≤ (Candidate.ofSum text.toList).reach := le_reach_ofSum h hq.1
      _ ≤ (Candidate.ofSum text.toList).stop := (Candidate.pointsInto_ofSum h).reach_le_stop

/-- A sign that is no plus between two terms: `2d6-1` still begins a sum, and the diagnosis does
not end before its end. -/
theorem refusal_not_before_second_term :
    Spelling.readSum? "2d6-1d4".toList = none ∧
      ∃ c q, Attempt.sum.run ⟨0, "2d6-1d4".toList⟩ none = ⟨none, some c⟩ ∧
        Grammar.strict.spellings "2d6-1d4" = .error (.malformed "2d6-1d4" [c.toSyntaxError]) ∧
          IsGreatest (beginningLengths "2d6-1d4".toList) q ∧ q ≤ c.toSyntaxError.stop := by
  have hread : Spelling.read? "2d6-1d4".toList =
      some (⟨some ⟨['2'], by decide, by decide⟩, ⟨['6'], by decide, by decide⟩, none⟩,
        ['-', '1', 'd', '4']) := by
    decide
  have hsum : Spelling.readSum? "2d6-1d4".toList = none := by
    rw [Spelling.readSum?_of_read?_eq_some hread,
      Spelling.readMore?_cons_of_read?_eq_none (by decide)]
    rfl
  exact ⟨hsum, refusal_not_before_problem "2d6-1d4" hsum⟩

end DiceNotation
