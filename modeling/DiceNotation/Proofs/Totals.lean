import DiceNotation.Proofs.Saturation
import DiceNotation.Rolling
import Mathlib.Algebra.GroupWithZero.Nat
import Mathlib.Algebra.Order.BigOperators.Group.List
import Mathlib.Algebra.Order.Group.Nat
import Mathlib.Data.Int.ConditionallyCompleteOrder
import Mathlib.Data.List.Forall2
import Mathlib.Order.ConditionallyCompleteLattice.Basic

/-!
# Possible Totals

The subtotals that a term can have are an interval: the sums of its faces are all numbers
from one for each die to the highest face for each die, and neither the modifier nor the
ends of the range leave a gap. Summing keeps intervals, so the totals of any terms are an
interval, too. Its ends are the totals of two rollers without chance. Main statement:
`totals_eq_Icc`.
-/

namespace DiceNotation

/-! ## §1 Sums of faces -/

theorem sum_bounds {low high : Nat} {faces : List Nat}
    (h : ∀ face ∈ faces, low ≤ face ∧ face ≤ high) :
    faces.length * low ≤ faces.sum ∧ faces.sum ≤ faces.length * high :=
  ⟨faces.card_nsmul_le_sum low fun face hface => (h face hface).1,
    faces.sum_le_card_nsmul high fun face hface => (h face hface).2⟩

/-- Every number between its bounds is the sum of some faces. -/
theorem exists_faces_sum_eq {sides : Nat} (hsides : 1 ≤ sides) (n : Nat) {k : Nat} (hlow : n ≤ k)
    (hhigh : k ≤ n * sides) :
    ∃ faces : List Nat, faces.length = n ∧ (∀ face ∈ faces, 1 ≤ face ∧ face ≤ sides) ∧
      faces.sum = k := by
  induction n generalizing k with
  | zero => exact ⟨[], rfl, by simp, by simp at hhigh; simp [hhigh]⟩
  | succ n ih =>
    have hmore : n ≤ n * sides := Nat.le_mul_of_pos_right n hsides
    rw [Nat.succ_mul] at hhigh
    -- The first die shows as much as the other dice can spare
    have hlow' : n ≤ k - min sides (k - n) := by omega
    have hhigh' : k - min sides (k - n) ≤ n * sides := by omega
    obtain ⟨faces, hlength, hfaces, hsum⟩ := ih hlow' hhigh'
    refine ⟨min sides (k - n) :: faces, by simp [hlength], ?_, ?_⟩
    · rw [List.forall_mem_cons]
      exact ⟨by omega, hfaces⟩
    · rw [List.sum_cons, hsum]
      omega

theorem toInt_foldl_add {faces : List Nat} {sum : Score} (hsum : 0 ≤ sum.toInt)
    (h : sum.toInt + faces.sum < 2 ^ 63) :
    (faces.foldl (fun sum face => sum + Int64.ofNat face) sum).toInt = sum.toInt + faces.sum := by
  induction faces generalizing sum with
  | nil => simp
  | cons face faces ih =>
    rw [List.sum_cons] at h ⊢
    have hface : (Int64.ofNat face).toInt = face := Int64.toInt_ofNat_of_lt (by omega)
    have hnext : (sum + Int64.ofNat face).toInt = sum.toInt + face := by
      rw [Int64.toInt_add, hface]
      apply Int.bmod_eq_of_le <;> omega
    rw [List.foldl_cons, ih (by omega) (by omega), hnext]
    omega

/-- The sum of faces is exact as long as it is a number of 64 bits. -/
theorem Outcome.toInt_facesTotal (o : Outcome) (h : o.faces.sum < 2 ^ 63) :
    o.facesTotal.toInt = o.faces.sum := by
  have hzero : (0 : Score).toInt = 0 := rfl
  rw [facesTotal, toInt_foldl_add] <;> omega

theorem Outcome.toInt_subtotal (o : Outcome) (h : o.faces.sum < 2 ^ 63) :
    o.subtotal.toInt = clamp (o.faces.sum + o.term.modifier.toInt) := by
  rw [subtotal, Score.toInt_add, o.toInt_facesTotal h]

/-! ## §2 One term -/

/-- An outcome of rolling a term: one face of the die for each of its dice. -/
structure Outcome.IsRollOf (o : Outcome) (t : Term) : Prop where
  term_eq : o.term = t
  length_faces : o.faces.length = t.count
  face_bounds : ∀ face ∈ o.faces, 1 ≤ face ∧ face ≤ t.sides

namespace Term

theorem count_mul_sides_le (t : Term) : t.count * t.sides ≤ 100 * 1000 :=
  Nat.mul_le_mul t.count_bounds.2 t.sides_bounds.2

theorem toInt_minTotal (t : Term) : t.minTotal.toInt = clamp (t.count + t.modifier.toInt) := by
  have hcount : t.count ≤ 100 := t.count_bounds.2
  rw [minTotal, Score.toInt_add, Int64.toInt_ofNat_of_lt (by omega)]

theorem toInt_maxTotal (t : Term) :
    t.maxTotal.toInt = clamp ((t.count * t.sides : Nat) + t.modifier.toInt) := by
  have hmax := t.count_mul_sides_le
  have hclamp : clamp ((t.count * t.sides : Nat) : Int) = (t.count * t.sides : Nat) :=
    clamp_eq_self (by omega) (by omega)
  rw [maxTotal, Score.toInt_add, Score.toInt_nearest, ← Int.natCast_mul, hclamp]

theorem toInt_minTotal_le_toInt_maxTotal (t : Term) : t.minTotal.toInt ≤ t.maxTotal.toInt := by
  rw [toInt_minTotal, toInt_maxTotal]
  have hle : t.count ≤ t.count * t.sides := Nat.le_mul_of_pos_right t.count t.sides_bounds.1
  exact clamp_mono (by omega)

end Term

theorem Outcome.IsRollOf.sum_faces_bounds {o : Outcome} {t : Term} (h : o.IsRollOf t) :
    t.count ≤ o.faces.sum ∧ o.faces.sum ≤ t.count * t.sides := by
  have hbounds := sum_bounds h.face_bounds
  rwa [h.length_faces, Nat.mul_one] at hbounds

theorem Outcome.IsRollOf.toInt_subtotal {o : Outcome} {t : Term} (h : o.IsRollOf t) :
    o.subtotal.toInt = clamp (o.faces.sum + t.modifier.toInt) := by
  have hmax := t.count_mul_sides_le
  have hsum := h.sum_faces_bounds
  rw [o.toInt_subtotal (by omega), h.term_eq]

/-- The possible subtotals of a term are those between its lowest and its highest one. -/
theorem exists_subtotal_eq_iff (t : Term) (x : Score) :
    (∃ o : Outcome, o.IsRollOf t ∧ o.subtotal = x) ↔
      t.minTotal.toInt ≤ x.toInt ∧ x.toInt ≤ t.maxTotal.toInt := by
  have hle : t.count ≤ t.count * t.sides := Nat.le_mul_of_pos_right t.count t.sides_bounds.1
  rw [t.toInt_minTotal, t.toInt_maxTotal]
  refine ⟨fun hroll => ?_, fun hx => ?_⟩
  · obtain ⟨o, ho, rfl⟩ := hroll
    have hsum := ho.sum_faces_bounds
    rw [ho.toInt_subtotal]
    exact ⟨clamp_mono (by omega), clamp_mono (by omega)⟩
  · obtain ⟨z, hlow, hhigh, hz⟩ := exists_clamp_eq (by omega) hx.1 hx.2
    obtain ⟨k, hk⟩ : ∃ k : Nat, (k : Int) = z - t.modifier.toInt :=
      ⟨(z - t.modifier.toInt).toNat, by omega⟩
    have hcount : t.count ≤ k := by omega
    have hsides : k ≤ t.count * t.sides := by omega
    obtain ⟨faces, hlength, hfaces, hsum⟩ :=
      exists_faces_sum_eq t.sides_bounds.1 t.count hcount hsides
    have hroll : (Outcome.mk t faces).IsRollOf t := ⟨rfl, hlength, hfaces⟩
    refine ⟨⟨t, faces⟩, hroll, ?_⟩
    rw [← Int64.toInt_inj, hroll.toInt_subtotal, ← hz, hsum]
    congr 1
    omega

/-! ## §3 All terms -/

/-- From an interval of sums, the terms of a list lead to the interval between the sums that
their lowest and their highest subtotals lead to. -/
theorem exists_foldl_add_eq_iff (terms : List Term) {low high : Score}
    (h : low.toInt ≤ high.toInt) (z : Score) :
    (∃ (a : Score) (outcomes : List Outcome), (low.toInt ≤ a.toInt ∧ a.toInt ≤ high.toInt) ∧
      List.Forall₂ Outcome.IsRollOf outcomes terms ∧
        (outcomes.map Outcome.subtotal).foldl Score.add a = z) ↔
      ((terms.map Term.minTotal).foldl Score.add low).toInt ≤ z.toInt ∧
        z.toInt ≤ ((terms.map Term.maxTotal).foldl Score.add high).toInt := by
  induction terms generalizing low high with
  | nil =>
    refine ⟨?_, fun hz => ⟨z, [], hz, .nil, rfl⟩⟩
    rintro ⟨a, outcomes, ha, hnil, rfl⟩
    cases hnil
    exact ha
  | cons t terms ih =>
    have hterm := t.toInt_minTotal_le_toInt_maxTotal
    have hsum : (Score.add low t.minTotal).toInt ≤ (Score.add high t.maxTotal).toInt := by
      rw [Score.toInt_add, Score.toInt_add]
      exact clamp_mono (by omega)
    rw [List.map_cons, List.map_cons, List.foldl_cons, List.foldl_cons, ← ih hsum]
    -- The sums after the first term are those of a sum before it and one of its subtotals
    constructor
    · rintro ⟨a, _, ha, hrolls, rfl⟩
      cases hrolls with
      | @cons o _ outcomes _ ho hrolls =>
        have hsubtotal := (exists_subtotal_eq_iff t o.subtotal).mp ⟨o, ho, rfl⟩
        have hnext := (Score.exists_add_eq_iff h hterm (Score.add a o.subtotal)).mp
          ⟨a, o.subtotal, ha, hsubtotal, rfl⟩
        exact ⟨Score.add a o.subtotal, outcomes, hnext, hrolls, rfl⟩
    · rintro ⟨b, outcomes, hb, hrolls, rfl⟩
      obtain ⟨a, x, ha, hx, rfl⟩ := (Score.exists_add_eq_iff h hterm b).mpr hb
      obtain ⟨o, ho, rfl⟩ := (exists_subtotal_eq_iff t x).mpr hx
      exact ⟨a, o :: outcomes, ha, .cons ho hrolls, rfl⟩

/-! ## §4 Rollers without chance -/

namespace Roller

variable {σ : Type} {r : Roller σ} {s : σ}

theorem dice_of_die_eq {shown : Nat → Nat}
    (h : ∀ sides, r.die sides s = (some (shown sides), s)) (sides n : Nat) :
    r.dice sides n s = (some (List.replicate n (shown sides)), s) := by
  induction n with
  | zero => rfl
  | succ n ih => simp [dice, h, ih, List.replicate_succ]

/-- A roller that stays in its state shows one face for all dice of like sides. -/
theorem answer_rollTerms_of_die_eq {shown : Nat → Nat}
    (h : ∀ sides, r.die sides s = (some (shown sides), s)) (terms : List Term) :
    (r.rollTerms terms s).answer =
      some (terms.map fun t => ⟨t, List.replicate t.count (shown t.sides)⟩) := by
  induction terms with
  | nil => rfl
  | cons t terms ih =>
    have hroll : r.roll t s = (some ⟨t, List.replicate t.count (shown t.sides)⟩, s) := by
      rw [roll, dice_of_die_eq h]
      rfl
    rw [rollTerms, hroll]
    show (r.rollTerms terms s).answer.map _ = _
    rw [ih]
    rfl

theorem total_evaluate_of_die_eq (shown : Nat → Nat)
    (h : ∀ sides, r.die sides s = (some (shown sides), s)) (terms : List Term) :
    (r.evaluate terms s).answer.map Tally.total =
      some (Score.sum (terms.map fun t =>
        Outcome.subtotal ⟨t, List.replicate t.count (shown t.sides)⟩)) := by
  rw [evaluate, evaluateAs, answer_rollTerms_of_die_eq h]
  simp [Tally.total, Function.comp_def]

end Roller

theorem isRollOf_replicate (t : Term) {face : Nat} (hlow : 1 ≤ face) (hhigh : face ≤ t.sides) :
    (Outcome.mk t (List.replicate t.count face)).IsRollOf t where
  term_eq := rfl
  length_faces := List.length_replicate
  face_bounds := by
    intro shown hshown
    rw [List.eq_of_mem_replicate hshown]
    exact ⟨hlow, hhigh⟩

theorem subtotal_replicate_one (t : Term) :
    Outcome.subtotal ⟨t, List.replicate t.count 1⟩ = t.minTotal := by
  rw [← Int64.toInt_inj, (isRollOf_replicate t (Nat.le_refl 1) t.sides_bounds.1).toInt_subtotal,
    t.toInt_minTotal, List.sum_replicate_nat, Nat.mul_one]

theorem subtotal_replicate_sides (t : Term) :
    Outcome.subtotal ⟨t, List.replicate t.count t.sides⟩ = t.maxTotal := by
  rw [← Int64.toInt_inj, (isRollOf_replicate t t.sides_bounds.1 (Nat.le_refl _)).toInt_subtotal,
    t.toInt_maxTotal, List.sum_replicate_nat]

/-- The scores between two of them are the integers between the two. -/
theorem setOf_toInt_eq_Icc {α : Type} {p : α → Prop} {score : α → Score} {low high : Score}
    (h : ∀ x, (∃ a, p a ∧ score a = x) ↔ low.toInt ≤ x.toInt ∧ x.toInt ≤ high.toInt) :
    {z : Int | ∃ a, p a ∧ (score a).toInt = z} = Set.Icc low.toInt high.toInt := by
  ext z
  constructor
  · rintro ⟨a, ha, rfl⟩
    exact (h (score a)).mp ⟨a, ha, rfl⟩
  · rintro ⟨hlow, hhigh⟩
    have hbounds := low.toInt_bounds
    have hbounds' := high.toInt_bounds
    obtain ⟨x, rfl⟩ : ∃ x : Score, x.toInt = z := by
      apply Score.exists_toInt_eq <;> omega
    obtain ⟨a, ha, rfl⟩ := (h x).mpr ⟨hlow, hhigh⟩
    exact ⟨a, ha, rfl⟩

/-- The totals that rolling some terms can have. -/
theorem exists_total_eq_iff (terms : List Term) (x : Score) :
    (∃ tally : Tally, List.Forall₂ Outcome.IsRollOf tally.outcomes terms ∧ tally.total = x) ↔
      (Score.sum (terms.map Term.minTotal)).toInt ≤ x.toInt ∧
        x.toInt ≤ (Score.sum (terms.map Term.maxTotal)).toInt := by
  rw [Score.sum, Score.sum, ← exists_foldl_add_eq_iff terms (Int.le_refl _)]
  constructor
  · rintro ⟨tally, hrolls, rfl⟩
    exact ⟨0, tally.outcomes, ⟨Int.le_refl _, Int.le_refl _⟩, hrolls, rfl⟩
  · rintro ⟨a, outcomes, ⟨hlow, hhigh⟩, hrolls, rfl⟩
    -- The only sum to start from is zero
    obtain rfl : a = 0 := Int64.toInt_inj.mp (Int.le_antisymm hhigh hlow)
    exact ⟨⟨"", outcomes⟩, hrolls, rfl⟩

/-- **The possible totals are an interval.** Rolling some terms can total everything between the
sum of their lowest subtotals and the sum of their highest ones, and nothing else. The ends are the
totals when every die shows one and when every die shows its highest face. -/
theorem totals_eq_Icc (terms : List Term) :
    {z : Int | ∃ tally : Tally,
        List.Forall₂ Outcome.IsRollOf tally.outcomes terms ∧ tally.total.toInt = z} =
      Set.Icc (Score.sum (terms.map Term.minTotal)).toInt
        (Score.sum (terms.map Term.maxTotal)).toInt ∧
    (Roller.constant.evaluate terms 1).answer.map Tally.total =
      some (Score.sum (terms.map Term.minTotal)) ∧
    (Roller.highest.evaluate terms ()).answer.map Tally.total =
      some (Score.sum (terms.map Term.maxTotal)) ∧
    ∀ t : Term, {z : Int | ∃ o : Outcome, o.IsRollOf t ∧ o.subtotal.toInt = z} =
      Set.Icc t.minTotal.toInt t.maxTotal.toInt := by
  refine ⟨?_, ?_, ?_, fun t => ?_⟩
  · exact setOf_toInt_eq_Icc (exists_total_eq_iff terms)
  · rw [Roller.total_evaluate_of_die_eq (fun _ => 1) fun _ => rfl]
    simp only [subtotal_replicate_one]
  · rw [Roller.total_evaluate_of_die_eq (fun sides => sides) fun _ => rfl]
    simp only [subtotal_replicate_sides]
  · exact setOf_toInt_eq_Icc (exists_subtotal_eq_iff t)

end DiceNotation
