import DiceNotation.Grammar.Search
import DiceNotation.Grammar.Sum

/-!
# Exact Readings

What every reader takes from the front of a text, said without the reader. A
numeral is read whole (`Numeral.read?_eq_some_iff`); a signed numeral is a modifier
unless dice follow it (`Spelling.readModifier?_eq_some_iff`); a spelling is read iff
it ends where it has to (`Spelling.read?_eq_some_iff`), and there is one to be read
iff dice follow the digits at the front (`Spelling.read?_eq_none_iff`).
-/

namespace DiceNotation

open Text (Numeral)

/-! ## §1 Runs of digits -/

/-- The ten digits. -/
def decimalDigits : List Char :=
  ['0', '1', '2', '3', '4', '5', '6', '7', '8', '9']

/-- The ten digits are all there are. -/
theorem isDigit_iff_mem (c : Char) : c.isDigit = true ↔ c ∈ decimalDigits := by
  refine ⟨fun h => ?_, fun h => ?_⟩
  · have hall : ∀ n < 58, 48 ≤ n → Char.ofNat n ∈ decimalDigits := by decide
    obtain ⟨hlow, hhigh⟩ := Char.isDigit_iff_toNat.mp h
    have hc := hall c.toNat (Nat.lt_succ_of_le hhigh) hlow
    rwa [Char.ofNat_toNat] at hc
  · have hall : decimalDigits.all Char.isDigit = true := by decide
    exact List.all_eq_true.mp hall c h

/-- A digit stands at the front of a text. -/
def startsDigit : List Char → Bool
  | c :: _ => c.isDigit
  | [] => false

@[simp] theorem startsDigit_nil : startsDigit [] = false := rfl

@[simp] theorem startsDigit_cons (c : Char) (cs : List Char) :
    startsDigit (c :: cs) = c.isDigit := rfl

/-- Another character that is no digit does not change what stands at the front. -/
theorem startsDigit_append_cons {c : Char} (hc : c.isDigit = false) (cs rest : List Char) :
    startsDigit (cs ++ c :: rest) = startsDigit cs := by
  cases cs with
  | nil => exact hc
  | cons b cs => rfl

theorem takeWhile_eq_nil {cs : List Char} (h : startsDigit cs = false) :
    cs.takeWhile Char.isDigit = [] := by
  cases cs with
  | nil => rfl
  | cons c cs => exact List.takeWhile_cons_of_neg (Bool.eq_false_iff.mp h)

theorem dropWhile_eq_self {cs : List Char} (h : startsDigit cs = false) :
    cs.dropWhile Char.isDigit = cs := by
  cases cs with
  | nil => rfl
  | cons c cs => exact List.dropWhile_cons_of_neg (Bool.eq_false_iff.mp h)

/-- Digits before a text without a digit at its front are its longest run. -/
theorem takeWhile_digits {ds rest : List Char} (hds : ∀ c ∈ ds, c.isDigit = true)
    (h : startsDigit rest = false) : (ds ++ rest).takeWhile Char.isDigit = ds := by
  rw [List.takeWhile_append_of_pos hds, takeWhile_eq_nil h, List.append_nil]

theorem dropWhile_digits {ds rest : List Char} (hds : ∀ c ∈ ds, c.isDigit = true)
    (h : startsDigit rest = false) : (ds ++ rest).dropWhile Char.isDigit = rest := by
  rw [List.dropWhile_append_of_pos hds, dropWhile_eq_self h]

theorem startsDigit_dropWhile (cs : List Char) :
    startsDigit (cs.dropWhile Char.isDigit) = false := by
  induction cs with
  | nil => rfl
  | cons c cs ih =>
    by_cases h : c.isDigit = true
    · rwa [List.dropWhile_cons_of_pos h]
    · rw [List.dropWhile_cons_of_neg h]
      simpa using h

/-- A character of another kind stands nowhere among characters of one kind. -/
theorem notMem_of_kind {kind : Char → Bool} {c : Char} (hc : kind c = false) {cs : List Char}
    (hcs : ∀ d ∈ cs, kind d = true) : c ∉ cs := by
  intro hmem
  rw [hcs c hmem] at hc
  cases hc

namespace Text.Numeral

theorem isDigit_of_mem (n : Numeral) : ∀ c ∈ n.digits, c.isDigit = true :=
  List.all_eq_true.mp n.decimal

/-- A numeral has a first digit. -/
theorem exists_digits_eq_cons (n : Numeral) :
    ∃ c cs, n.digits = c :: cs ∧ c.isDigit = true := by
  obtain ⟨c, cs, h⟩ := List.exists_cons_of_ne_nil n.nonempty
  refine ⟨c, cs, h, ?_⟩
  apply n.isDigit_of_mem
  rw [h]
  exact List.mem_cons_self

/-- **Reading a numeral**: it is read iff it is at the front and no digit follows it. -/
theorem read?_eq_some_iff {cs rest : List Char} {n : Numeral} :
    read? cs = some (n, rest) ↔ cs = n.digits ++ rest ∧ startsDigit rest = false := by
  constructor
  · intro h
    refine ⟨eq_append_of_read? h, ?_⟩
    unfold read? at h
    split at h
    · -- What is left is what `dropWhile` leaves
      obtain ⟨rfl, rfl⟩ := Prod.mk.inj (Option.some.inj h)
      exact startsDigit_dropWhile cs
    · cases h
  · intro h
    obtain ⟨rfl, h⟩ := h
    have htake := takeWhile_digits n.isDigit_of_mem h
    have hdrop := dropWhile_digits n.isDigit_of_mem h
    simp [read?, htake, hdrop, n.nonempty]

/-- No numeral is read where no digit stands. -/
theorem read?_eq_none_iff {cs : List Char} : read? cs = none ↔ startsDigit cs = false := by
  cases cs with
  | nil => simp [read?]
  | cons c cs => by_cases h : c.isDigit = true <;> simp [read?, h]

end Text.Numeral

/-! ## §2 Signs and dice -/

theorem Sign.isDigit_char (sign : Sign) : sign.char.isDigit = false := by
  cases sign <;> decide

theorem Sign.read?_eq_some_iff {cs rest : List Char} {sign : Sign} :
    read? cs = some (sign, rest) ↔ cs = sign.char :: rest := by
  constructor
  · intro h
    exact eq_cons_of_read? h
  · intro h
    subst h
    cases sign <;> rfl

theorem Sign.dropPlus_cons_of_ne {c : Char} (h : c ≠ '+') (cs : List Char) :
    dropPlus (c :: cs) = c :: cs := by
  unfold dropPlus
  split
  · next h' => exact absurd (List.cons.inj h').1 h
  · rfl

namespace Spelling

theorem exists_eq_cons_of_startsDice {cs : List Char} (h : startsDice cs = true) :
    ∃ rest, cs = 'd' :: rest := by
  unfold startsDice at h
  split at h
  · exact ⟨_, rfl⟩
  · cases h

theorem startsDigit_of_startsDice {cs : List Char} (h : startsDice cs = true) :
    startsDigit cs = false := by
  unfold startsDice at h
  split at h
  · rfl
  · cases h

theorem startsDice_append (n : Numeral) (rest : List Char) :
    startsDice ('d' :: (n.digits ++ rest)) = true := by
  obtain ⟨c, cs, h, hc⟩ := n.exists_digits_eq_cons
  simpa [h, startsDice] using hc

theorem startsDice_cons_d (cs : List Char) : startsDice ('d' :: cs) = startsDigit cs := by
  cases cs <;> rfl

theorem startsDice_cons_of_ne {c : Char} (h : c ≠ 'd') (cs : List Char) :
    startsDice (c :: cs) = false := by
  unfold startsDice
  split
  · next h' => exact absurd (List.cons.inj h').1 h
  · rfl

/-- Sides are read iff dice stand at the front. -/
theorem readSides?_eq_some_iff {cs rest : List Char} {sides : Numeral} :
    readSides? cs = some (sides, rest) ↔
      cs = 'd' :: (sides.digits ++ rest) ∧ startsDigit rest = false := by
  constructor
  · intro h
    unfold readSides? at h
    split at h
    · obtain ⟨rfl, hrest⟩ := Numeral.read?_eq_some_iff.mp h
      exact ⟨rfl, hrest⟩
    · cases h
  · intro h
    obtain ⟨rfl, hrest⟩ := h
    exact Numeral.read?_eq_some_iff.mpr ⟨rfl, hrest⟩

theorem readSides?_eq_none_iff {cs : List Char} :
    readSides? cs = none ↔ startsDice cs = false := by
  unfold readSides?
  split
  · -- Behind the letter both look for a digit
    rw [startsDice_cons_d, Numeral.read?_eq_none_iff]
  · next h =>
    -- Without the letter there are neither sides nor dice
    cases cs with
    | nil => simp [startsDice]
    | cons c cs =>
      have hc : c ≠ 'd' := by
        intro hd
        subst hd
        exact h cs rfl
      simp [startsDice_cons_of_ne hc]

/-! ## §3 Parts of a spelling -/

/-- The characters of the count; none if it is left out. -/
def countChars (s : Spelling) : List Char :=
  (s.count.map Numeral.digits).getD []

/-- The characters of the modifier; none if there is no modifier. -/
def modifierChars (s : Spelling) : List Char :=
  (s.modifier.map SignedNumeral.chars).getD []

theorem modifierChars_of_eq_none {s : Spelling} (h : s.modifier = none) :
    s.modifierChars = [] := by
  simp [modifierChars, h]

theorem modifierChars_of_eq_some {s : Spelling} {m : SignedNumeral} (h : s.modifier = some m) :
    s.modifierChars = m.chars := by
  simp [modifierChars, h]

theorem chars_eq (s : Spelling) :
    s.chars = s.countChars ++ 'd' :: (s.sides.digits ++ s.modifierChars) := rfl

/-- The parts of a spelling and what follows it. -/
theorem chars_append_eq (s : Spelling) (rest : List Char) :
    s.chars ++ rest = s.countChars ++ 'd' :: (s.sides.digits ++ (s.modifierChars ++ rest)) := by
  simp [chars_eq]

theorem isDigit_of_mem_countChars (s : Spelling) : ∀ c ∈ s.countChars, c.isDigit = true := by
  cases h : s.count with
  | none => simp [countChars, h]
  | some count => simpa [countChars, h] using count.isDigit_of_mem

/-- Behind the digits at the front of a spelling stand its dice. -/
theorem dropWhile_chars_append (s : Spelling) (rest : List Char) :
    (s.chars ++ rest).dropWhile Char.isDigit =
      'd' :: (s.sides.digits ++ (s.modifierChars ++ rest)) := by
  rw [chars_append_eq]
  exact dropWhile_digits s.isDigit_of_mem_countChars rfl

theorem takeWhile_chars_append (s : Spelling) (rest : List Char) :
    (s.chars ++ rest).takeWhile Char.isDigit = s.countChars := by
  rw [chars_append_eq]
  exact takeWhile_digits s.isDigit_of_mem_countChars rfl

theorem map_digits_count (s : Spelling) :
    s.count.map Numeral.digits = if s.countChars = [] then none else some s.countChars := by
  cases h : s.count with
  | none => simp [countChars, h]
  | some count => simp [countChars, h, count.nonempty]

/-- A count is read whole, whether it is written or not. -/
theorem readCount_countChars (s : Spelling) {rest : List Char} (h : startsDigit rest = false) :
    readCount (s.countChars ++ rest) = (s.count, rest) := by
  cases hc : s.count with
  | none =>
    have hread : Numeral.read? rest = none := Numeral.read?_eq_none_iff.mpr h
    simp [countChars, hc, readCount, hread]
  | some count =>
    have hread : Numeral.read? (count.digits ++ rest) = some (count, rest) :=
      Numeral.read?_eq_some_iff.mpr ⟨rfl, h⟩
    simp [countChars, hc, readCount, hread]

/-- The count that is read is the digits at the front. -/
theorem fst_readCount (cs : List Char) :
    ((readCount cs).1.map Numeral.digits).getD [] = cs.takeWhile Char.isDigit := by
  unfold readCount
  split
  · next count rest h =>
    obtain ⟨rfl, hrest⟩ := Numeral.read?_eq_some_iff.mp h
    exact (takeWhile_digits count.isDigit_of_mem hrest).symm
  · next h => exact (takeWhile_eq_nil (Numeral.read?_eq_none_iff.mp h)).symm

theorem snd_readCount (cs : List Char) : (readCount cs).2 = cs.dropWhile Char.isDigit := by
  unfold readCount
  split
  · next count rest h =>
    obtain ⟨rfl, hrest⟩ := Numeral.read?_eq_some_iff.mp h
    exact (dropWhile_digits count.isDigit_of_mem hrest).symm
  · next h => exact (dropWhile_eq_self (Numeral.read?_eq_none_iff.mp h)).symm

/-! ## §4 Where a spelling ends -/

/-- A modifier is read iff it is at the front and neither a digit nor dice follow it. -/
theorem readModifier?_eq_some_iff {cs rest : List Char} {m : SignedNumeral} :
    readModifier? cs = some (m, rest) ↔
      cs = m.chars ++ rest ∧ startsDigit rest = false ∧ startsDice rest = false := by
  constructor
  · intro h
    simp only [readModifier?, Option.bind_eq_bind, Option.bind_eq_some_iff] at h
    obtain ⟨⟨sign, afterSign⟩, hsign, ⟨size, afterSize⟩, hsize, h⟩ := h
    obtain rfl := Sign.read?_eq_some_iff.mp hsign
    obtain ⟨rfl, hdigit⟩ := Numeral.read?_eq_some_iff.mp hsize
    split at h
    · -- Dice take the number for their count
      cases h
    · next hdice =>
      obtain ⟨rfl, rfl⟩ := Prod.mk.inj (Option.some.inj h)
      exact ⟨rfl, hdigit, Bool.eq_false_iff.mpr hdice⟩
  · intro h
    obtain ⟨rfl, hdigit, hdice⟩ := h
    have hsign : Sign.read? (m.chars ++ rest) = some (m.sign, m.size.digits ++ rest) :=
      Sign.read?_eq_some_iff.mpr rfl
    have hsize : Numeral.read? (m.size.digits ++ rest) = some (m.size, rest) :=
      Numeral.read?_eq_some_iff.mpr ⟨rfl, hdigit⟩
    simp [readModifier?, hsign, hsize, hdice]

/-- What may follow a spelling: nothing that its last number would take in, and no dice
that would take the number of its modifier for their count. -/
structure EndsBefore (s : Spelling) (rest : List Char) : Prop where
  /-- No digit follows the sides. -/
  sides_end : startsDigit (s.modifierChars ++ rest) = false
  /-- No digit follows the modifier. -/
  modifier_end : ∀ m ∈ s.modifier, startsDigit rest = false
  /-- No dice follow the modifier. -/
  modifier_kept : ∀ m ∈ s.modifier, startsDice rest = false

theorem startsDigit_modifierChars_append (s : Spelling) {rest : List Char}
    (h : startsDigit rest = false) : startsDigit (s.modifierChars ++ rest) = false := by
  cases hm : s.modifier with
  | none => rwa [modifierChars_of_eq_none hm, List.nil_append]
  | some m =>
    rw [modifierChars_of_eq_some hm]
    exact m.sign.isDigit_char

/-- Every spelling ends before a text that starts with neither a digit nor dice. -/
theorem endsBefore_of_not_starts (s : Spelling) {rest : List Char}
    (hdigit : startsDigit rest = false) (hdice : startsDice rest = false) : s.EndsBefore rest where
  sides_end := s.startsDigit_modifierChars_append hdigit
  modifier_end := fun _ _ => hdigit
  modifier_kept := fun _ _ => hdice

/-- A spelling without a modifier ends before dice, too. -/
theorem endsBefore_of_modifier_eq_none {s : Spelling} (hs : s.modifier = none) {rest : List Char}
    (hdigit : startsDigit rest = false) : s.EndsBefore rest where
  sides_end := s.startsDigit_modifierChars_append hdigit
  modifier_end := fun _ _ => hdigit
  modifier_kept := by simp [hs]

/-- The modifier of a spelling that ends before the rest is read after its sides, and no
other one if it has none. -/
theorem readOptionalModifier_eq_iff {cs rest : List Char} {modifier : Option SignedNumeral} :
    readOptionalModifier cs = (modifier, rest) ↔
      cs = (modifier.map SignedNumeral.chars).getD [] ++ rest ∧
        (∀ m ∈ modifier, startsDigit rest = false ∧ startsDice rest = false) ∧
          (modifier = none → readModifier? rest = none) := by
  unfold readOptionalModifier
  cases h : readModifier? cs with
  | some read =>
    obtain ⟨m, after⟩ := read
    obtain ⟨rfl, hend⟩ := readModifier?_eq_some_iff.mp h
    cases modifier with
    | none =>
      -- One was read, so there is one to be read before the rest
      simp only [Prod.mk.injEq, reduceCtorEq, false_and, Option.map_none, Option.getD_none,
        List.nil_append, false_iff, not_and]
      intro htext _
      subst htext
      simp [h]
    | some m' =>
      constructor
      · intro heq
        obtain ⟨hm, rfl⟩ := Prod.mk.inj heq
        obtain rfl := Option.some.inj hm
        simpa using hend
      · intro hsplit
        obtain ⟨htext, hend', -⟩ := hsplit
        -- Both are what is read from the same text
        have h' := readModifier?_eq_some_iff.mpr ⟨htext, hend' m' rfl⟩
        obtain ⟨rfl, rfl⟩ := Prod.mk.inj (Option.some.inj (h.symm.trans h'))
        rfl
  | none =>
    cases modifier with
    | none =>
      constructor
      · intro heq
        obtain ⟨-, rfl⟩ := Prod.mk.inj heq
        simpa using h
      · intro hsplit
        obtain ⟨rfl, -, -⟩ := hsplit
        rfl
    | some m =>
      simp only [Prod.mk.injEq, reduceCtorEq, false_and, false_iff, not_and]
      intro htext hend
      have h' := readModifier?_eq_some_iff.mpr ⟨htext, hend m rfl⟩
      cases h.symm.trans h'

/-- **Reading a spelling**: it is read iff it is at the front, ends before the rest, and, if
it has no modifier, none could be read. -/
theorem read?_eq_some_iff {cs rest : List Char} {s : Spelling} :
    read? cs = some (s, rest) ↔
      cs = s.chars ++ rest ∧ s.EndsBefore rest ∧
        (s.modifier = none → readModifier? rest = none) := by
  constructor
  · intro h
    have htext := eq_append_of_read? h
    simp only [read?, Option.bind_eq_bind, Option.bind_eq_some_iff] at h
    obtain ⟨⟨sides, afterSides⟩, hsides, h⟩ := h
    obtain ⟨rfl, hrest⟩ := Prod.mk.inj (Option.some.inj h)
    obtain ⟨-, hdigit⟩ := readSides?_eq_some_iff.mp hsides
    have hmodifier : readOptionalModifier afterSides =
        ((readOptionalModifier afterSides).1, rest) := by rw [← hrest]
    obtain ⟨hafter, hend, hnone⟩ := readOptionalModifier_eq_iff.mp hmodifier
    refine ⟨htext, ⟨?_, fun m hm => (hend m hm).1, fun m hm => (hend m hm).2⟩, hnone⟩
    -- The sides end before the modifier and the rest
    rwa [hafter] at hdigit
  · intro h
    obtain ⟨rfl, hend, hnone⟩ := h
    -- Count, sides and modifier are read one after the other
    have hcount : readCount (s.countChars ++ 'd' :: (s.sides.digits ++ (s.modifierChars ++ rest))) =
        (s.count, 'd' :: (s.sides.digits ++ (s.modifierChars ++ rest))) :=
      s.readCount_countChars rfl
    have hsides : readSides? ('d' :: (s.sides.digits ++ (s.modifierChars ++ rest))) =
        some (s.sides, s.modifierChars ++ rest) :=
      readSides?_eq_some_iff.mpr ⟨rfl, hend.sides_end⟩
    have hmodifier : readOptionalModifier (s.modifierChars ++ rest) = (s.modifier, rest) :=
      readOptionalModifier_eq_iff.mpr
        ⟨rfl, fun m hm => ⟨hend.modifier_end m hm, hend.modifier_kept m hm⟩, hnone⟩
    simp [read?, chars_append_eq, hcount, hsides, hmodifier]

/-- Nothing is read iff no dice follow the digits at the front. -/
theorem read?_eq_none_iff {cs : List Char} :
    read? cs = none ↔ startsDice (cs.dropWhile Char.isDigit) = false := by
  rw [← readSides?_eq_none_iff, ← snd_readCount]
  cases h : readSides? (readCount cs).2 <;> simp [read?, h]

/-! ## §5 In front of another character -/

/-- What a text starts with is decided in front of a character that is neither a digit nor the
letter of dice. -/
theorem startsDice_append_cons {c : Char} (hdigit : c.isDigit = false) (hd : c ≠ 'd')
    (cs rest : List Char) : startsDice (cs ++ c :: rest) = startsDice cs := by
  cases cs with
  | nil => exact startsDice_cons_of_ne hd rest
  | cons b cs =>
    by_cases hb : b = 'd'
    · -- Behind the letter both look for a digit
      subst hb
      rw [List.cons_append, startsDice_cons_d, startsDice_cons_d, startsDigit_append_cons hdigit]
    · rw [List.cons_append, startsDice_cons_of_ne hb, startsDice_cons_of_ne hb]

/-- A spelling that ends before a text ends before it if such a character and more stand
behind it. -/
theorem EndsBefore.append_cons {s : Spelling} {cs : List Char} (h : s.EndsBefore cs) {c : Char}
    (hdigit : c.isDigit = false) (hd : c ≠ 'd') (rest : List Char) :
    s.EndsBefore (cs ++ c :: rest) where
  sides_end := by
    rw [← List.append_assoc, startsDigit_append_cons hdigit]
    exact h.sides_end
  modifier_end := by
    intro m hm
    rw [startsDigit_append_cons hdigit]
    exact h.modifier_end m hm
  modifier_kept := by
    intro m hm
    rw [startsDice_append_cons hdigit hd]
    exact h.modifier_kept m hm

end Spelling

/-! ## §6 Characters of notation -/

/-- The characters that terms in normal form are written with. -/
def isNotation (c : Char) : Bool :=
  c.isDigit || c ∈ ['d', '+', '-']

theorem isNotation_of_isDigit {c : Char} (h : c.isDigit = true) : isNotation c = true := by
  simp [isNotation, h]

section

variable {c : Char} (hc : isNotation c = false)

include hc

theorem isDigit_of_not_isNotation : c.isDigit = false :=
  (Bool.or_eq_false_iff.mp hc).1

theorem ne_letter_of_not_isNotation : c ≠ 'd' := by
  rintro rfl
  exact absurd hc (by decide)

end

/-- Nothing but characters of notation stands in a signed numeral. -/
theorem SignedNumeral.isNotation_of_mem (m : SignedNumeral) :
    ∀ c ∈ m.chars, isNotation c = true := by
  intro c hc
  rcases List.mem_cons.mp hc with rfl | hsize
  · cases m.sign <;> decide
  · exact isNotation_of_isDigit (m.size.isDigit_of_mem c hsize)

/-- Nothing but characters of notation stands in a spelling. -/
theorem Spelling.isNotation_of_mem (s : Spelling) : ∀ c ∈ s.chars, isNotation c = true := by
  intro c hc
  rw [s.chars_eq, List.mem_append, List.mem_cons, List.mem_append] at hc
  rcases hc with hcount | rfl | hsides | hmodifier
  · exact isNotation_of_isDigit (s.isDigit_of_mem_countChars c hcount)
  · decide
  · exact isNotation_of_isDigit (s.sides.isDigit_of_mem c hsides)
  · cases hm : s.modifier with
    | none => simp [modifierChars_of_eq_none hm] at hmodifier
    | some m =>
      rw [modifierChars_of_eq_some hm] at hmodifier
      exact m.isNotation_of_mem c hmodifier

end DiceNotation
