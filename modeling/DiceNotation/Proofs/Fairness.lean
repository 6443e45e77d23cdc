import DiceNotation.Proofs.Drawing
import Mathlib.Algebra.Order.Floor.Div
import Mathlib.Algebra.Order.Group.Nat
import Mathlib.Order.Interval.Finset.Nat

/-!
# Fair Dice

What a die shows is decided by the low half of a word: it is dropped, or it chooses a face
(`Generator.shown?`). A face belongs to the low halves whose products lie in one stretch of `2^32`
numbers, less the first `2^32 % sides` of them. What is left of the stretch is as long as a
multiple of the sides, so it holds equally many products wherever it starts
(`Generator.card_filter_products`). Main statement: `seeded_dice_are_unbiased`.
-/

namespace DiceNotation

namespace Generator

/-! ## §1 Chosen faces -/

/-- The face that the low half of a word chooses, if the word is kept. -/
def shown? (sides low : Nat) : Option Nat :=
  if keeps sides (low * sides % UInt32.size) then some (1 + low * sides / UInt32.size) else none

/-- The low half of the next word. -/
def nextLow (g : Generator) : Nat :=
  g.next.1.toNat % UInt32.size

variable {sides : Nat}

theorem shown?_eq_some_iff {low face : Nat} :
    shown? sides low = some face ↔
      keeps sides (low * sides % UInt32.size) = true ∧ 1 + low * sides / UInt32.size = face := by
  simp [shown?]

theorem shown?_eq_none_iff {low : Nat} :
    shown? sides low = none ↔ keeps sides (low * sides % UInt32.size) = false := by
  simp [shown?]

/-- A face belongs to one stretch of products, less the first of them. -/
theorem shown?_eq_some_iff_stretch (hsides : 0 < sides) {low index : Nat} :
    shown? sides low = some (1 + index) ↔
      index * UInt32.size + threshold sides ≤ low * sides ∧
        low * sides < index * UInt32.size + UInt32.size := by
  rw [shown?_eq_some_iff, keeps_iff hsides]
  simp only [UInt32.size]
  omega

/-- A low half chooses none but the faces of the die. -/
theorem face_bounds_of_shown? (hsides : 0 < sides) {low face : Nat} (hlow : low < UInt32.size)
    (h : shown? sides low = some face) : 1 ≤ face ∧ face ≤ sides := by
  obtain ⟨-, rfl⟩ := shown?_eq_some_iff.mp h
  have hindex : low * sides / UInt32.size < sides :=
    Nat.div_lt_of_lt_mul (Nat.mul_lt_mul_of_pos_right hlow hsides)
  exact ⟨Nat.le_add_right 1 _, Nat.one_add_le_iff.mpr hindex⟩

/-! ## §2 What the die shows -/

/-- What is drawn from a generator is decided by it. -/
theorem Draws.unique {g g₁ g₂ : Generator} {index₁ index₂ : Nat} (h₁ : Draws sides g index₁ g₁)
    (h₂ : Draws sides g index₂ g₂) : index₁ = index₂ ∧ g₁ = g₂ := by
  -- A word is either kept or dropped
  induction h₁ with
  | kept hkept =>
    cases h₂ with
    | kept => exact ⟨rfl, rfl⟩
    | dropped hdropped => exact absurd hkept (Nat.not_le_of_lt hdropped)
  | dropped hdropped _ ih =>
    cases h₂ with
    | kept hkept => exact absurd hkept (Nat.not_le_of_lt hdropped)
    | dropped _ h₂ => exact ih h₂

theorem Draws.die_eq (hsides : 0 < sides) {g g' : Generator} {index : Nat}
    (h : Draws sides g index g') : Roller.seeded.die sides g = (some (1 + index), g') := by
  obtain ⟨index', g'', hface, hdraws⟩ := draws_face hsides g
  obtain ⟨rfl, rfl⟩ := h.unique hdraws
  show (some (g.face sides).1, (g.face sides).2) = _
  rw [hface]

/-- A die shows the face that the next low half chooses. -/
theorem die_of_shown?_eq_some (hsides : 0 < sides) {g : Generator} {face : Nat}
    (h : shown? sides g.nextLow = some face) :
    Roller.seeded.die sides g = (some face, g.next.2) := by
  obtain ⟨hkeeps, rfl⟩ := shown?_eq_some_iff.mp h
  have hdraws : Draws sides g (g.nextLow * sides / UInt32.size) g.next.2 :=
    .kept ((keeps_iff hsides _).mp hkeeps)
  exact hdraws.die_eq hsides

/-- If the next low half is dropped, a die shows what the words behind it make it show. -/
theorem die_of_shown?_eq_none (hsides : 0 < sides) {g : Generator}
    (h : shown? sides g.nextLow = none) :
    Roller.seeded.die sides g = Roller.seeded.die sides g.next.2 := by
  -- What is drawn behind the dropped word is what is drawn from here
  obtain ⟨index, g', -, hdraws⟩ := draws_face hsides g.next.2
  have hdropped : product sides g.next.1 % UInt32.size < threshold sides := by
    rw [← Nat.not_le, ← keeps_iff hsides, Bool.not_eq_true]
    exact shown?_eq_none_iff.mp h
  rw [hdraws.die_eq hsides, (Draws.dropped hdropped hdraws).die_eq hsides]

/-! ## §3 Counting products -/

/-- Multiples of the sides are found equally often in stretches of one length, if the length is a
multiple, too. -/
theorem card_filter_products (hsides : 0 < sides) {bound start n : Nat}
    (hbound : start + sides * n ≤ sides * bound) :
    ((Finset.range bound).filter fun low =>
      start ≤ low * sides ∧ low * sides < start + sides * n).card = n := by
  have hshift : (start + sides * n) ⌈/⌉ sides = start ⌈/⌉ sides + n := by
    rw [Nat.ceilDiv_eq_add_pred_div, Nat.ceilDiv_eq_add_pred_div,
      ← Nat.add_mul_div_left _ n hsides]
    congr 1
    omega
  -- The factors lie between the quotients of the ends, rounded up
  have hfilter : ((Finset.range bound).filter fun low =>
      start ≤ low * sides ∧ low * sides < start + sides * n) =
        Finset.Ico (start ⌈/⌉ sides) (start ⌈/⌉ sides + n) := by
    ext low
    have hlow : start ⌈/⌉ sides ≤ low ↔ start ≤ low * sides := by
      rw [ceilDiv_le_iff_le_mul hsides, Nat.mul_comm]
    have hhigh : low < start ⌈/⌉ sides + n ↔ low * sides < start + sides * n := by
      rw [← hshift, ← not_le, ceilDiv_le_iff_le_mul hsides, not_le, Nat.mul_comm]
    rw [Finset.mem_filter, Finset.mem_range, Finset.mem_Ico, hlow, hhigh]
    refine ⟨fun h => h.2, fun h => ⟨?_, h⟩⟩
    -- No factor is missing, since the stretch does not reach beyond the bound
    exact Nat.lt_of_mul_lt_mul_left (Nat.mul_comm .. ▸ h.2.trans_le hbound)
  rw [hfilter, Nat.card_Ico, Nat.add_sub_cancel_left]

theorem threshold_eq (hsize : sides ≤ UInt32.size) : threshold sides = UInt32.size % sides :=
  (Nat.mod_eq_sub_mod hsize).symm

/-- **Every face is chosen equally often.** -/
theorem card_filter_shown? (hsides : 0 < sides) (hsize : sides ≤ UInt32.size) {face : Nat}
    (hlow : 1 ≤ face) (hhigh : face ≤ sides) :
    ((Finset.range UInt32.size).filter fun low => shown? sides low = some face).card =
      UInt32.size / sides := by
  obtain ⟨index, rfl⟩ := Nat.exists_eq_add_of_le hlow
  -- Without its first part the stretch of a face is a multiple of the sides
  have hstretch : index * UInt32.size + UInt32.size =
      index * UInt32.size + threshold sides + sides * (UInt32.size / sides) := by
    rw [threshold_eq hsize, Nat.add_assoc, Nat.mod_add_div]
  have hbound : index * UInt32.size + threshold sides + sides * (UInt32.size / sides) ≤
      sides * UInt32.size := by
    rw [← hstretch, ← Nat.succ_mul, Nat.succ_eq_one_add]
    exact Nat.mul_le_mul_right _ hhigh
  simp only [shown?_eq_some_iff_stretch hsides, hstretch]
  exact card_filter_products hsides hbound

end Generator

/-- **Seeded dice are unbiased.** Each face of a die is chosen by `2^32 / sides` of the low halves that
a word can have, and nothing else is chosen. A low half that passes the early test, by which no
threshold is computed, passes the full one, so what is kept is decided by the threshold alone. And
a die shows the face that is chosen by the first low half that is kept. -/
theorem seeded_dice_are_unbiased {sides : Nat} (hsides : 0 < sides) (hsize : sides ≤ UInt32.size) :
    (∀ face, 1 ≤ face → face ≤ sides →
      ((Finset.range UInt32.size).filter fun low =>
        Generator.shown? sides low = some face).card = UInt32.size / sides) ∧
    (∀ low < UInt32.size, ∀ face, Generator.shown? sides low = some face →
      1 ≤ face ∧ face ≤ sides) ∧
    (∀ rest, sides ≤ rest → (UInt32.size - sides) % sides ≤ rest) ∧
    (∀ rest, Generator.keeps sides rest = true ↔ (UInt32.size - sides) % sides ≤ rest) ∧
    ∀ g : Generator, Roller.seeded.die sides g =
      match Generator.shown? sides g.nextLow with
      | some face => (some face, g.next.2)
      | none => Roller.seeded.die sides g.next.2 := by
  refine ⟨fun face hlow hhigh => Generator.card_filter_shown? hsides hsize hlow hhigh,
    fun low hlow face h => Generator.face_bounds_of_shown? hsides hlow h, fun rest hrest => ?_,
    Generator.keeps_iff hsides, fun g => ?_⟩
  · exact (Nat.le_of_lt (Nat.mod_lt _ hsides)).trans hrest
  · split
    · next face h => exact Generator.die_of_shown?_eq_some hsides h
    · next h => exact Generator.die_of_shown?_eq_none hsides h

/-- With 65535 sides one low half is dropped, and the highest face has as many as any other. -/
theorem seeded_dice_are_unbiased_of_many_sides :
    0 < 65535 ∧ 65535 ≤ UInt32.size ∧ Generator.keeps 65535 0 = false ∧
      ((Finset.range UInt32.size).filter fun low =>
        Generator.shown? 65535 low = some 65535).card = 65537 := by
  have hsides : 0 < 65535 := by decide
  have hsize : 65535 ≤ UInt32.size := by decide
  have hcard := (seeded_dice_are_unbiased hsides hsize).1 65535 hsides (Nat.le_refl _)
  exact ⟨hsides, hsize, by decide, hcard.trans (by decide)⟩

end DiceNotation
