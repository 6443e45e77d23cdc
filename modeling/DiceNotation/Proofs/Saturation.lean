import DiceNotation.Score
import Mathlib.Algebra.Group.Int.Defs

/-!
# Clamped Integers

A sum of scores is the exact sum of integers, clamped to 64 bits (`Score.toInt_add`).
Clamping is monotone and leaves no gaps: the integers between two clamped ones are the
clamped ones of those between (`exists_clamp_eq`). So the sums of two intervals of scores
are the interval between the sums of their ends (`Score.exists_add_eq_iff`).
-/

namespace DiceNotation

/-- The integer of 64 bits that is nearest to an integer. -/
def clamp (z : Int) : Int :=
  max (-2 ^ 63) (min (2 ^ 63 - 1) z)

theorem clamp_mono {a b : Int} (h : a ≤ b) : clamp a ≤ clamp b := by
  simp only [clamp]
  omega

theorem clamp_eq_self {z : Int} (hlow : -2 ^ 63 ≤ z) (hhigh : z < 2 ^ 63) : clamp z = z := by
  simp only [clamp]
  omega

/-- Clamping an interval leaves no gaps. -/
theorem exists_clamp_eq {low high z : Int} (h : low ≤ high) (hlow : clamp low ≤ z)
    (hhigh : z ≤ clamp high) : ∃ k, low ≤ k ∧ k ≤ high ∧ clamp k = z := by
  simp only [clamp] at *
  -- If the ends are on one side of the range, one of them will do
  refine ⟨max low (min high z), ?_, ?_, ?_⟩ <;> omega

namespace Score

theorem toInt_bounds (s : Score) : -2 ^ 63 ≤ s.toInt ∧ s.toInt < 2 ^ 63 :=
  ⟨s.le_toInt, s.toInt_lt⟩

theorem toInt_nearest (z : Int) : (nearest z).toInt = clamp z := by
  rw [nearest, Int64.ofIntClamp]
  simp only [Int64.toInt_minValue, Int64.toInt_maxValue]
  split
  · split
    · rw [Int64.toInt_ofIntLE]
      simp only [clamp]
      omega
    · rw [Int64.toInt_maxValue]
      simp only [clamp]
      omega
  · rw [Int64.toInt_minValue]
    simp only [clamp]
    omega

/-- Every integer of 64 bits is a score. -/
theorem exists_toInt_eq {z : Int} (hlow : -2 ^ 63 ≤ z) (hhigh : z < 2 ^ 63) :
    ∃ s : Score, s.toInt = z :=
  ⟨nearest z, by rw [toInt_nearest, clamp_eq_self hlow hhigh]⟩

theorem toInt_add (a b : Score) : (add a b).toInt = clamp (a.toInt + b.toInt) :=
  toInt_nearest _

/-- The sums of two intervals are the interval between the sums of their ends. -/
theorem exists_add_eq_iff {low high low' high' : Score} (h : low.toInt ≤ high.toInt)
    (h' : low'.toInt ≤ high'.toInt) (z : Score) :
    (∃ a b : Score, (low.toInt ≤ a.toInt ∧ a.toInt ≤ high.toInt) ∧
      (low'.toInt ≤ b.toInt ∧ b.toInt ≤ high'.toInt) ∧ add a b = z) ↔
      (add low low').toInt ≤ z.toInt ∧ z.toInt ≤ (add high high').toInt := by
  simp only [toInt_add]
  refine ⟨fun hsum => ?_, fun hz => ?_⟩
  · obtain ⟨a, b, ha, hb, rfl⟩ := hsum
    rw [toInt_add]
    exact ⟨clamp_mono (by omega), clamp_mono (by omega)⟩
  · obtain ⟨k, hlow, hhigh, hk⟩ := exists_clamp_eq (by omega) hz.1 hz.2
    -- The second part takes as much of the sum as it can
    have hbounds := low.toInt_bounds
    have hbounds' := high'.toInt_bounds
    have hbounds₁ := high.toInt_bounds
    have hbounds₁' := low'.toInt_bounds
    obtain ⟨a, ha⟩ : ∃ a : Score, a.toInt = max low.toInt (k - high'.toInt) := by
      apply exists_toInt_eq <;> omega
    obtain ⟨b, hb⟩ : ∃ b : Score, b.toInt = k - a.toInt := by
      apply exists_toInt_eq <;> omega
    refine ⟨a, b, by omega, by omega, ?_⟩
    rw [← Int64.toInt_inj, toInt_add, hb, ← hk]
    congr 1
    omega

end Score

end DiceNotation
