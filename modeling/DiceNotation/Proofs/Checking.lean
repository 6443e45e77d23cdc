import DiceNotation.Grammar
import DiceNotation.Proofs.Reading
import Mathlib.Algebra.Group.Int.Defs
import Mathlib.Data.List.Forall2

/-!
# Checked Spellings

What a written number is worth (`Numeral.value`), and what checking makes of a spelling:
each number is accepted iff its value is within bounds, however it is written, and else
it is the error. So a spelling has a term iff its values are those of the term
(`Spelling.toTerm_eq_ok_iff`), it has none iff one of its numbers is at fault
(`Spelling.toTerm_eq_error_iff`), and of a list of spellings the first that is at fault
decides (`Spelling.mapM_toTerm_eq_error_iff`).

The values are those of digits of any length. That words of 8, 16 and 64 bits lie between
the digits and the bounds is never seen, as all bounds are narrower than the words or are
those of the word itself (`Grammar.checking_is_exact`).
-/

namespace DiceNotation

open Text (Numeral)

/-- The errors that are about a number of a term. -/
def NotationError.isAboutNumber : NotationError → Bool
  | count _ | sides _ | modifier _ => true
  | noTerm _ | malformed .. => false

/-! ## §1 Values -/

namespace Text.Numeral

/-- The value of a numeral in decimal. -/
def value (n : Numeral) : Nat :=
  Nat.ofDigitChars 10 n.digits 0

theorem le_ofDigitChars (ds : List Char) (sum : Nat) : sum ≤ Nat.ofDigitChars 10 ds sum := by
  induction ds generalizing sum with
  | nil => simp
  | cons c ds ih =>
    rw [Nat.ofDigitChars_cons]
    -- One step is at least as much already
    have hnext := ih (10 * sum + (c.toNat - '0'.toNat))
    omega

/-- Digits are read up to a limit iff their value does not exceed it. -/
theorem upToFrom?_eq (limit : Nat) (ds : List Char) {sum : Nat} (hsum : sum ≤ limit) :
    upToFrom? limit sum ds =
      if Nat.ofDigitChars 10 ds sum ≤ limit then some (Nat.ofDigitChars 10 ds sum) else none := by
  induction ds generalizing sum with
  | nil => simp [upToFrom?, hsum]
  | cons c ds ih =>
    have hcons : Nat.ofDigitChars 10 (c :: ds) sum =
        Nat.ofDigitChars 10 ds (10 * sum + digitValue c) := Nat.ofDigitChars_cons
    rw [hcons]
    show (if 10 * sum + digitValue c ≤ limit then
      upToFrom? limit (10 * sum + digitValue c) ds else none) = _
    by_cases hnext : 10 * sum + digitValue c ≤ limit
    · rw [if_pos hnext, ih hnext]
    · -- The value is past the limit for good
      have hle := le_ofDigitChars ds (10 * sum + digitValue c)
      have hvalue : ¬ Nat.ofDigitChars 10 ds (10 * sum + digitValue c) ≤ limit := by omega
      rw [if_neg hnext, if_neg hvalue]

theorem upTo?_eq (limit : Nat) (n : Numeral) :
    n.upTo? limit = if n.value ≤ limit then some n.value else none :=
  upToFrom?_eq limit n.digits (Nat.zero_le limit)

/-- A word that holds all numbers up to the higher bound takes nothing away. -/
theorem between?_eq {greatest high : Nat} (hword : high ≤ greatest) (low : Nat) (n : Numeral) :
    n.between? greatest low high =
      if low ≤ n.value ∧ n.value ≤ high then some n.value else none := by
  rw [between?, upTo?_eq]
  by_cases hbounds : low ≤ n.value ∧ n.value ≤ high
  · rw [if_pos (Nat.le_trans hbounds.2 hword), if_pos hbounds]
    simp [hbounds]
  · rw [if_neg hbounds]
    split
    · simpa using fun hlow => Nat.lt_of_not_le fun hhigh => hbounds ⟨hlow, hhigh⟩
    · rfl

end Text.Numeral

/-- The size of a signed number is small enough iff the number is one of 64 bits. -/
theorem Sign.le_greatestSize_iff (sign : Sign) (size : Nat) :
    size ≤ sign.greatestSize ↔ -2 ^ 63 ≤ sign.apply size ∧ sign.apply size ≤ 2 ^ 63 - 1 := by
  cases sign <;> simp only [Sign.greatestSize, Sign.apply, Int64.size] <;> omega

namespace Spelling

/-- The number of dice that is written; one if the count is left out. -/
def countValue (s : Spelling) : Nat :=
  (s.count.map Numeral.value).getD 1

/-- The modifier that is written; zero if there is none. -/
def modifierValue (s : Spelling) : Int :=
  (s.modifier.map fun m => m.sign.apply m.size.value).getD 0

/-! ## §2 Faults -/

/-- All numbers of a spelling are within bounds. -/
structure InBounds (s : Spelling) : Prop where
  count : 1 ≤ s.countValue ∧ s.countValue ≤ 100
  sides : 1 ≤ s.sides.value ∧ s.sides.value ≤ 1000
  modifier : -2 ^ 63 ≤ s.modifierValue ∧ s.modifierValue ≤ 2 ^ 63 - 1

/-- A spelling that has the values of a term is within bounds, since every term is. -/
theorem InBounds.of_term {s : Spelling} {t : Term} (hcount : s.countValue = t.count)
    (hsides : s.sides.value = t.sides) (hmodifier : s.modifierValue = t.modifier.toInt) :
    s.InBounds where
  count := hcount ▸ t.count_bounds
  sides := hsides ▸ t.sides_bounds
  modifier := hmodifier ▸ ⟨t.modifier.minValue_le_toInt, t.modifier.toInt_le⟩

/-- An error is the fault of a spelling if it holds, as it was written, the first number
that is out of bounds. -/
inductive FaultIs (s : Spelling) : NotationError → Prop where
  | count (hcount : ¬ (1 ≤ s.countValue ∧ s.countValue ≤ 100)) :
      FaultIs s (.count (String.ofList s.countChars))
  | sides (hcount : 1 ≤ s.countValue ∧ s.countValue ≤ 100)
      (hsides : ¬ (1 ≤ s.sides.value ∧ s.sides.value ≤ 1000)) :
      FaultIs s (.sides s.sides.text)
  | modifier (hcount : 1 ≤ s.countValue ∧ s.countValue ≤ 100)
      (hsides : 1 ≤ s.sides.value ∧ s.sides.value ≤ 1000)
      (hmodifier : ¬ (-2 ^ 63 ≤ s.modifierValue ∧ s.modifierValue ≤ 2 ^ 63 - 1)) :
      FaultIs s (.modifier (String.ofList s.modifierChars))

theorem FaultIs.isAboutNumber {s : Spelling} {error : NotationError} (h : s.FaultIs error) :
    error.isAboutNumber = true := by
  cases h <;> rfl

/-! ## §3 One spelling -/

/-- A count is accepted iff its value is within bounds. -/
theorem checkedCount_eq (s : Spelling) :
    s.checkedCount =
      if 1 ≤ s.countValue ∧ s.countValue ≤ 100 then .ok s.countValue
      else .error (.count (String.ofList s.countChars)) := by
  cases h : s.count with
  | none => simp [checkedCount, countValue, h]
  | some written =>
    have hvalue : s.countValue = written.value := by simp [countValue, h]
    -- Reading between bounds is what the code does, comparing values is what it means
    have hread : written.between? (UInt8.size - 1) 1 Term.maxCount =
        if 1 ≤ written.value ∧ written.value ≤ 100 then some written.value else none :=
      Numeral.between?_eq (by decide) 1 written
    rw [hvalue, checkedCount]
    by_cases hbounds : 1 ≤ written.value ∧ written.value ≤ 100
    · simp only [h, hread, if_pos hbounds]
    · simp only [h, hread, if_neg hbounds, countChars, Option.map_some, Option.getD_some]
      rfl

theorem checkedSides_eq (s : Spelling) :
    s.checkedSides =
      if 1 ≤ s.sides.value ∧ s.sides.value ≤ 1000 then .ok s.sides.value
      else .error (.sides s.sides.text) := by
  have hread : s.sides.between? (UInt16.size - 1) 1 Term.maxSides =
      if 1 ≤ s.sides.value ∧ s.sides.value ≤ 1000 then some s.sides.value else none :=
    Numeral.between?_eq (by decide) 1 s.sides
  rw [checkedSides]
  by_cases hbounds : 1 ≤ s.sides.value ∧ s.sides.value ≤ 1000
  · simp only [hread, if_pos hbounds]
  · simp only [hread, if_neg hbounds]

theorem checkedModifier_eq (s : Spelling) :
    s.checkedModifier =
      if -2 ^ 63 ≤ s.modifierValue ∧ s.modifierValue ≤ 2 ^ 63 - 1 then
        .ok (Int64.ofInt s.modifierValue)
      else .error (.modifier (String.ofList s.modifierChars)) := by
  cases h : s.modifier with
  | none =>
    -- Zero is one of them
    have hvalue : s.modifierValue = 0 := by simp [modifierValue, h]
    rw [hvalue, if_pos (by decide), checkedModifier, h]
    rfl
  | some written =>
    have hvalue : s.modifierValue = written.sign.apply written.size.value := by
      simp [modifierValue, h]
    have hiff := written.sign.le_greatestSize_iff written.size.value
    rw [hvalue, checkedModifier]
    by_cases hbounds : written.size.value ≤ written.sign.greatestSize
    · simp only [h, Numeral.upTo?_eq, if_pos hbounds, if_pos (hiff.mp hbounds)]
    · simp only [h, Numeral.upTo?_eq, if_neg hbounds, if_neg (mt hiff.mpr hbounds), modifierChars,
        Option.map_some, Option.getD_some]

private theorem error_of_bind {α β : Type} {x : Except NotationError α}
    {f : α → Except NotationError β} {error : NotationError} (h : x >>= f = .error error) :
    x = .error error ∨ ∃ a, x = .ok a ∧ f a = .error error := by
  cases x with
  | error e => exact .inl (congrArg Except.error (Except.error.inj h))
  | ok a => exact .inr ⟨a, rfl, h⟩

private theorem ok_of_bind {α β : Type} {x : Except NotationError α}
    {f : α → Except NotationError β} {b : β} (h : x >>= f = .ok b) :
    ∃ a, x = .ok a ∧ f a = .ok b := by
  cases x with
  | error e => cases h
  | ok a => exact ⟨a, rfl, h⟩

private theorem error_of_ite {α : Type} {p : Prop} [Decidable p] {a : α} {e error : NotationError}
    (h : (if p then .ok a else .error e : Except NotationError α) = .error error) :
    ¬ p ∧ e = error := by
  split at h
  · cases h
  · next hp => exact ⟨hp, Except.error.inj h⟩

private theorem ok_of_ite {α : Type} {p : Prop} [Decidable p] {a b : α} {e : NotationError}
    (h : (if p then .ok a else .error e : Except NotationError α) = .ok b) : p ∧ a = b := by
  split at h
  · next hp => exact ⟨hp, Except.ok.inj h⟩
  · cases h

theorem checkedCount_eq_ok_iff {s : Spelling} {count : Nat} :
    s.checkedCount = .ok count ↔ (1 ≤ s.countValue ∧ s.countValue ≤ 100) ∧ s.countValue = count :=
  ⟨fun h => ok_of_ite (s.checkedCount_eq ▸ h),
    fun h => by rw [checkedCount_eq, if_pos h.1, h.2]⟩

theorem checkedSides_eq_ok_iff {s : Spelling} {sides : Nat} :
    s.checkedSides = .ok sides ↔
      (1 ≤ s.sides.value ∧ s.sides.value ≤ 1000) ∧ s.sides.value = sides :=
  ⟨fun h => ok_of_ite (s.checkedSides_eq ▸ h),
    fun h => by rw [checkedSides_eq, if_pos h.1, h.2]⟩

/-- What has passed the checks passes those of the term as well. -/
theorem exists_make_of_checked {s : Spelling} {count sides : Nat}
    (hcount : s.checkedCount = .ok count) (hsides : s.checkedSides = .ok sides)
    (modifier : Score) : ∃ t, Term.make count sides modifier = .ok t := by
  obtain ⟨hcountBounds, rfl⟩ := checkedCount_eq_ok_iff.mp hcount
  obtain ⟨hsidesBounds, rfl⟩ := checkedSides_eq_ok_iff.mp hsides
  exact ⟨⟨s.countValue, s.sides.value, modifier, hcountBounds, hsidesBounds⟩,
    Term.make_eq_ok_iff.mpr ⟨rfl, rfl, rfl⟩⟩

/-- **Checking is exact**: a spelling has a term iff its values are those of the term. -/
theorem toTerm_eq_ok_iff {s : Spelling} {t : Term} :
    s.toTerm = .ok t ↔
      s.countValue = t.count ∧ s.sides.value = t.sides ∧ s.modifierValue = t.modifier.toInt := by
  refine ⟨fun h => ?_, fun h => ?_⟩
  · obtain ⟨count, hcount, h⟩ := ok_of_bind h
    obtain ⟨sides, hsides, h⟩ := ok_of_bind h
    obtain ⟨modifier, hmodifier, h⟩ := ok_of_bind h
    obtain ⟨rfl, rfl, rfl⟩ := Term.make_eq_ok_iff.mp h
    rw [checkedModifier_eq] at hmodifier
    obtain ⟨hbounds, hmodifier⟩ := ok_of_ite hmodifier
    refine ⟨(checkedCount_eq_ok_iff.mp hcount).2, (checkedSides_eq_ok_iff.mp hsides).2, ?_⟩
    rw [← hmodifier, Int64.toInt_ofInt_of_le hbounds.1 (Int.lt_of_le_sub_one hbounds.2)]
  · obtain ⟨hcount, hsides, hmodifier⟩ := h
    -- All three checks succeed
    have hbounds := InBounds.of_term hcount hsides hmodifier
    rw [toTerm, checkedCount_eq, if_pos hbounds.count, checkedSides_eq, if_pos hbounds.sides,
      checkedModifier_eq, if_pos hbounds.modifier]
    exact Term.make_eq_ok_iff.mpr ⟨hcount.symm, hsides.symm, by rw [hmodifier, Int64.ofInt_toInt]⟩

/-- A spelling has a term iff its numbers are within bounds. -/
theorem exists_toTerm_iff {s : Spelling} : (∃ t, s.toTerm = .ok t) ↔ s.InBounds := by
  refine ⟨fun ⟨t, h⟩ => ?_, fun h => ?_⟩
  · obtain ⟨hcount, hsides, hmodifier⟩ := toTerm_eq_ok_iff.mp h
    exact .of_term hcount hsides hmodifier
  · refine ⟨⟨s.countValue, s.sides.value, Int64.ofInt s.modifierValue, h.count, h.sides⟩,
      toTerm_eq_ok_iff.mpr ⟨rfl, rfl, ?_⟩⟩
    exact (Int64.toInt_ofInt_of_le h.modifier.1 (Int.lt_of_le_sub_one h.modifier.2)).symm

/-- **The first fault wins**: a spelling has no term iff one of its numbers is at fault, and
the error is the fault. -/
theorem toTerm_eq_error_iff {s : Spelling} {error : NotationError} :
    s.toTerm = .error error ↔ s.FaultIs error := by
  refine ⟨fun h => ?_, fun h => ?_⟩
  · rcases error_of_bind h with hcount | ⟨count, hcount, h⟩
    · rw [checkedCount_eq] at hcount
      obtain ⟨hfault, rfl⟩ := error_of_ite hcount
      exact .count hfault
    rcases error_of_bind h with hsides | ⟨sides, hsides, h⟩
    · rw [checkedSides_eq] at hsides
      obtain ⟨hfault, rfl⟩ := error_of_ite hsides
      exact .sides (checkedCount_eq_ok_iff.mp hcount).1 hfault
    rcases error_of_bind h with hmodifier | ⟨modifier, -, h⟩
    · rw [checkedModifier_eq] at hmodifier
      obtain ⟨hfault, rfl⟩ := error_of_ite hmodifier
      exact .modifier (checkedCount_eq_ok_iff.mp hcount).1 (checkedSides_eq_ok_iff.mp hsides).1
        hfault
    · -- Building the term is no source of errors
      obtain ⟨t, ht⟩ := exists_make_of_checked hcount hsides modifier
      exact nomatch ht.symm.trans h
  · cases h with
    | count hfault =>
      rw [toTerm, checkedCount_eq, if_neg hfault]
      rfl
    | sides hcount hfault =>
      rw [toTerm, checkedCount_eq, if_pos hcount, checkedSides_eq, if_neg hfault]
      rfl
    | modifier hcount hsides hfault =>
      rw [toTerm, checkedCount_eq, if_pos hcount, checkedSides_eq, if_pos hsides,
        checkedModifier_eq, if_neg hfault]
      rfl

/-! ## §4 All spellings of a text -/

/-- Spellings have terms iff each of them has one, and these are the terms in order. -/
theorem mapM_toTerm_eq_ok_iff {spellings : List Spelling} {terms : List Term} :
    spellings.mapM toTerm = .ok terms ↔
      List.Forall₂ (fun s t => s.toTerm = .ok t) spellings terms := by
  induction spellings generalizing terms with
  | nil => cases terms <;> simp [pure, Except.pure]
  | cons s spellings ih =>
    rw [List.mapM_cons]
    refine ⟨fun h => ?_, fun h => ?_⟩
    · obtain ⟨t, hs, h⟩ := ok_of_bind h
      obtain ⟨ts, hmore, h⟩ := ok_of_bind h
      obtain rfl := Except.ok.inj h
      exact .cons hs (ih.mp hmore)
    · cases h with
      | cons hs hmore =>
        rw [hs, ih.mpr hmore]
        rfl

theorem exists_mapM_toTerm_iff {spellings : List Spelling} :
    (∃ terms, spellings.mapM toTerm = .ok terms) ↔ ∀ s ∈ spellings, s.InBounds := by
  simp only [mapM_toTerm_eq_ok_iff, ← exists_toTerm_iff]
  induction spellings with
  | nil => simp
  | cons s spellings ih =>
    rw [List.forall_mem_cons, ← ih]
    refine ⟨fun ⟨terms, h⟩ => ?_, fun ⟨⟨t, hs⟩, ts, hmore⟩ => ⟨t :: ts, .cons hs hmore⟩⟩
    cases h with
    | cons hs hmore => exact ⟨⟨_, hs⟩, _, hmore⟩

/-- The error of spellings is the fault of the first that is not within bounds. -/
theorem mapM_toTerm_eq_error_iff {spellings : List Spelling} {error : NotationError} :
    spellings.mapM toTerm = .error error ↔
      ∃ before s after, spellings = before ++ s :: after ∧ (∀ t ∈ before, t.InBounds) ∧
        s.FaultIs error := by
  induction spellings with
  | nil => simp [pure, Except.pure]
  | cons first more ih =>
    rw [List.mapM_cons]
    refine ⟨fun h => ?_, fun ⟨before, s, after, heq, hbefore, hfault⟩ => ?_⟩
    · rcases error_of_bind h with hfirst | ⟨t, hfirst, h⟩
      · exact ⟨[], first, more, rfl, by simp, toTerm_eq_error_iff.mp hfirst⟩
      · rcases error_of_bind h with hmore | ⟨ts, -, h⟩
        · obtain ⟨before, s, after, rfl, hbefore, hfault⟩ := ih.mp hmore
          refine ⟨first :: before, s, after, rfl, ?_, hfault⟩
          exact List.forall_mem_cons.mpr ⟨exists_toTerm_iff.mp ⟨t, hfirst⟩, hbefore⟩
        · cases h
    · cases before with
      | nil =>
        obtain ⟨rfl, rfl⟩ := List.cons.inj heq
        rw [toTerm_eq_error_iff.mpr hfault]
        rfl
      | cons _ before =>
        obtain ⟨rfl, rfl⟩ := List.cons.inj heq
        obtain ⟨hfirst, hbefore⟩ := List.forall_mem_cons.mp hbefore
        -- The first is within bounds, so checking goes on
        obtain ⟨t, ht⟩ := exists_toTerm_iff.mpr hfirst
        rw [ht, ih.mpr ⟨before, s, after, rfl, hbefore, hfault⟩]
        rfl

/-- Checking gives no error but about a number. -/
theorem isAboutNumber_of_mapM {spellings : List Spelling} {error : NotationError}
    (h : spellings.mapM toTerm = .error error) : error.isAboutNumber = true := by
  obtain ⟨_, _, _, -, -, hfault⟩ := mapM_toTerm_eq_error_iff.mp h
  exact hfault.isAboutNumber

end Spelling

/-! ## §5 Expressions -/

namespace Grammar

/-- What was read decides the answer. -/
theorem parse_of_spellings {grammar : Grammar} {text : String} {spellings : List Spelling}
    (h : grammar.spellings (Text.normalize text) = .ok spellings) :
    grammar.parse text = spellings.mapM Spelling.toTerm := by
  rw [parse, h]
  rfl

/-- What the lenient grammar answers: the error of a text without terms, or that of checking
what was found. -/
theorem parse_lenient (text : String) :
    lenient.parse text =
      if Spelling.findAll (Text.normalize text).toList = [] then
        .error (.noTerm (Text.normalize text))
      else (Spelling.findAll (Text.normalize text).toList).mapM Spelling.toTerm := by
  rw [parse, spellings]
  cases h : Spelling.findAll (Text.normalize text).toList with
  | nil => rfl
  | cons s more => rfl

/-- **Checking is exact decimal arithmetic, and the first fault wins**: of a text that is
read, the terms are there iff all numbers are within bounds, and they have the values that
are written. Else the error is the fault of the first spelling that has one. Once the
numbers of a spelling have passed, building its term cannot fail. -/
theorem checking_is_exact {grammar : Grammar} {text : String} {spellings : List Spelling}
    (h : grammar.spellings (Text.normalize text) = .ok spellings) :
    ((∃ terms, grammar.parse text = .ok terms) ↔ ∀ s ∈ spellings, s.InBounds) ∧
    (∀ terms, grammar.parse text = .ok terms ↔
      List.Forall₂ (fun s t => s.countValue = t.count ∧ s.sides.value = t.sides ∧
        s.modifierValue = t.modifier.toInt) spellings terms) ∧
    (∀ error, grammar.parse text = .error error ↔
      ∃ before s after, spellings = before ++ s :: after ∧ (∀ t ∈ before, t.InBounds) ∧
        s.FaultIs error) ∧
    ∀ (s : Spelling) (count sides : Nat) (modifier : Score), s.checkedCount = .ok count →
      s.checkedSides = .ok sides → s.checkedModifier = .ok modifier →
      ∃ t, Term.make count sides modifier = .ok t := by
  rw [parse_of_spellings h]
  refine ⟨Spelling.exists_mapM_toTerm_iff, fun terms => ?_,
    fun error => Spelling.mapM_toTerm_eq_error_iff,
    fun s count sides modifier hcount hsides _ =>
      Spelling.exists_make_of_checked hcount hsides modifier⟩
  rw [Spelling.mapM_toTerm_eq_ok_iff]
  simp only [Spelling.toTerm_eq_ok_iff]

/-- Zeros in front are kept in an error and count for nothing in a value, and the first of
two faults wins. -/
theorem checking_is_exact_of_zeros :
    strict.parse "001d0006 + 2d0000 + 000d6" = .error (.sides "0000") := by
  have hread : strict.spellings (Text.normalize "001d0006 + 2d0000 + 000d6") =
      .ok [⟨some ⟨['0', '0', '1'], by decide, by decide⟩,
          ⟨['0', '0', '0', '6'], by decide, by decide⟩, none⟩,
        ⟨some ⟨['2'], by decide, by decide⟩, ⟨['0', '0', '0', '0'], by decide, by decide⟩, none⟩,
        ⟨some ⟨['0', '0', '0'], by decide, by decide⟩, ⟨['6'], by decide, by decide⟩, none⟩] := by
    decide +kernel
  refine ((checking_is_exact hread).2.2.1 _).mpr ⟨[_], _, [_], rfl, ?_, .sides ?_ ?_⟩
  · rintro t (_ | ⟨_, ⟨⟩⟩)
    exact ⟨by decide, by decide, by decide⟩
  · decide
  · decide

end Grammar

end DiceNotation
