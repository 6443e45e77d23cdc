import DiceNotation.Proofs.Totals

/-!
# Terms with One Subtotal

Whatever the dice of a term show, its subtotal is the same iff its lowest subtotal is its
highest one. That is so for one-sided dice, which have nothing else to show, and for one
more kind of term: where the lowest subtotal is the greatest score already, no face can
add to it. The check of a term sees the first kind only. Main statement:
`one_subtotal_iff_deterministic_or_full`.
-/

namespace DiceNotation

/-! ## §1 One-sided dice -/

/-- One-sided dice show nothing but ones. -/
theorem Outcome.IsRollOf.eq_of_sides_eq_one {o : Outcome} {t : Term} (h : o.IsRollOf t)
    (hsides : t.sides = 1) : o = ⟨t, List.replicate t.count 1⟩ := by
  obtain ⟨term, faces⟩ := o
  obtain rfl : term = t := h.term_eq
  have hfaces : faces = List.replicate term.count 1 := by
    refine List.eq_replicate_iff.mpr ⟨h.length_faces, fun face hface => ?_⟩
    have hbounds := h.face_bounds face hface
    omega
  rw [hfaces]

namespace Term

theorem isDeterministic_iff (t : Term) : t.isDeterministic = true ↔ t.sides = 1 := by
  simp [isDeterministic]

/-- The check of a term is about its faces: they are fixed iff the dice are one-sided. -/
theorem forall_faces_eq_iff (t : Term) :
    (∀ o o' : Outcome, o.IsRollOf t → o'.IsRollOf t → o.faces = o'.faces) ↔
      t.isDeterministic = true := by
  rw [isDeterministic_iff]
  constructor
  · intro h
    -- The lowest and the highest faces are among those that can be shown
    have hlow := isRollOf_replicate t (Nat.le_refl 1) t.sides_bounds.1
    have hhigh := isRollOf_replicate t t.sides_bounds.1 (Nat.le_refl t.sides)
    have hfaces : List.replicate t.count 1 = List.replicate t.count t.sides := h _ _ hlow hhigh
    have hcount : t.count ≠ 0 := Nat.ne_of_gt t.count_bounds.1
    exact ((List.replicate_right_inj hcount).mp hfaces).symm
  · intro hsides o o' ho ho'
    rw [ho.eq_of_sides_eq_one hsides, ho'.eq_of_sides_eq_one hsides]

/-! ## §2 The ends of the subtotals -/

/-- All rolls of a term have one subtotal iff the lowest one is the highest one. -/
theorem forall_subtotal_eq_iff (t : Term) :
    (∀ o o' : Outcome, o.IsRollOf t → o'.IsRollOf t → o.subtotal = o'.subtotal) ↔
      t.minTotal = t.maxTotal := by
  constructor
  · intro h
    have hlow := isRollOf_replicate t (Nat.le_refl 1) t.sides_bounds.1
    have hhigh := isRollOf_replicate t t.sides_bounds.1 (Nat.le_refl t.sides)
    rw [← subtotal_replicate_one, ← subtotal_replicate_sides]
    exact h _ _ hlow hhigh
  · intro hends o o' ho ho'
    -- Every subtotal lies between the two ends
    have hbounds := (exists_subtotal_eq_iff t o.subtotal).mp ⟨o, ho, rfl⟩
    have hbounds' := (exists_subtotal_eq_iff t o'.subtotal).mp ⟨o', ho', rfl⟩
    rw [hends] at hbounds hbounds'
    apply Int64.toInt_inj.mp
    omega

/-- The ends of the subtotals are the same iff the dice are one-sided or the lowest subtotal
is the greatest score. -/
theorem minTotal_eq_maxTotal_iff (t : Term) :
    t.minTotal = t.maxTotal ↔ t.sides = 1 ∨ 2 ^ 63 - 1 ≤ t.count + t.modifier.toInt := by
  rw [← Int64.toInt_inj, toInt_minTotal, toInt_maxTotal]
  have hcount := t.count_bounds.1
  have hmodifier := t.modifier.toInt_bounds
  rcases Nat.eq_or_lt_of_le t.sides_bounds.1 with hsides | hsides
  · simp [← hsides]
  · -- With more sides the exact sums differ, so they are equal only where both are cut off
    have hsums : t.count < t.count * t.sides :=
      (Nat.lt_mul_iff_one_lt_right hcount).mpr hsides
    simp only [clamp]
    omega

end Term

/-- **When a term has one subtotal only.** All rolls of a term have the same subtotal iff its lowest
subtotal is its highest one. That is so iff the term is reported as deterministic or its lowest
subtotal reaches the greatest score. What the report is about are the faces: it is made iff all
rolls show the same ones. -/
theorem one_subtotal_iff_deterministic_or_full (t : Term) :
    ((∀ o o' : Outcome, o.IsRollOf t → o'.IsRollOf t → o.subtotal = o'.subtotal) ↔
      t.minTotal = t.maxTotal) ∧
    (t.minTotal = t.maxTotal ↔
      t.isDeterministic = true ∨ 2 ^ 63 - 1 ≤ t.count + t.modifier.toInt) ∧
    (t.isDeterministic = true ↔
      ∀ o o' : Outcome, o.IsRollOf t → o'.IsRollOf t → o.faces = o'.faces) := by
  refine ⟨t.forall_subtotal_eq_iff, ?_, t.forall_faces_eq_iff.symm⟩
  rw [t.isDeterministic_iff]
  exact t.minTotal_eq_maxTotal_iff

/-- A die with six sides and the greatest modifier. -/
def Term.fullDie : Term :=
  ⟨1, 6, Int64.maxValue, by decide, by decide⟩

/-- It always has the greatest score, but it is not reported as deterministic. -/
theorem full_die_not_deterministic :
    Term.fullDie.isDeterministic = false ∧ Term.fullDie.minTotal = Term.fullDie.maxTotal ∧
      ∀ o o' : Outcome, o.IsRollOf Term.fullDie → o'.IsRollOf Term.fullDie →
        o.subtotal = o'.subtotal := by
  have hends : Term.fullDie.minTotal = Term.fullDie.maxTotal := by decide
  exact ⟨rfl, hends, Term.fullDie.forall_subtotal_eq_iff.mpr hends⟩

end DiceNotation
