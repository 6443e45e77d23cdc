import DiceNotation.Proofs.Totals
import Mathlib.Data.List.Induction

/-!
# Exact Totals

Adding up scores stops at the ends of the range at every addition, so a total may depend on the
order of what is added. But as long as the exact sum goes on outward once it has left the range
(`Outward`), stopping at every addition is the same as stopping once at the end
(`Score.toInt_sum_of_outward`). Then the total depends on the exact sum only, and outcomes may be
put in any order and added up in any groups. Main statement: `total_is_exact_and_free`.
-/

namespace DiceNotation

/-! ## §1 Sums that do not turn back -/

/-- A number of 64 bits. -/
def InWord (z : Int) : Prop :=
  -2 ^ 63 ≤ z ∧ z < 2 ^ 63

/-- Adding to a sum outside the range does not lead back towards it. -/
def Outward (sum z : Int) : Prop :=
  InWord sum ∨ (2 ^ 63 ≤ sum ∧ 0 ≤ z) ∨ (sum < -2 ^ 63 ∧ z ≤ 0)

theorem clamp_add_of_outward {sum z : Int} (h : Outward sum z) :
    clamp (clamp sum + z) = clamp (sum + z) := by
  rcases h with ⟨hlow, hhigh⟩ | ⟨hsum, hz⟩ | ⟨hsum, hz⟩
  · rw [clamp_eq_self hlow hhigh]
  -- Outside the range both sums are cut off at the end that was passed
  · simp only [clamp]
    omega
  · simp only [clamp]
    omega

/-- On one side of zero both parts may be clamped before they are added. -/
theorem clamp_clamp_add_clamp {a b : Int} (h : (0 ≤ a ∧ 0 ≤ b) ∨ (a ≤ 0 ∧ b ≤ 0)) :
    clamp (clamp a + clamp b) = clamp (a + b) := by
  simp only [clamp]
  omega

namespace Score

/-- The sum of scores as integers. -/
def exactSum (scores : List Score) : Int :=
  (scores.map Int64.toInt).sum

/-- The sum of the sizes of scores, whatever their signs. -/
def magnitude (scores : List Score) : Nat :=
  (scores.map fun s => s.toInt.natAbs).sum

variable {scores left right : List Score}

@[simp] theorem exactSum_append (left right : List Score) :
    exactSum (left ++ right) = exactSum left + exactSum right := by
  simp [exactSum]

@[simp] theorem exactSum_singleton (s : Score) : exactSum [s] = s.toInt := by
  simp [exactSum]

@[simp] theorem magnitude_append (left right : List Score) :
    magnitude (left ++ right) = magnitude left + magnitude right := by
  simp [magnitude]

theorem sum_append_singleton (scores : List Score) (s : Score) :
    sum (scores ++ [s]) = add (sum scores) s := by
  simp [sum]

/-- If the exact sum never turns back, it is clamped but once. -/
theorem toInt_sum_of_outward
    (h : ∀ before s, before ++ [s] <+: scores → Outward (exactSum before) s.toInt) :
    (sum scores).toInt = clamp (exactSum scores) := by
  -- From the end, as the last score is added to the sum of all before it
  induction scores using List.reverseRecOn with
  | nil => rfl
  | append_singleton scores s ih =>
    have hscores : (sum scores).toInt = clamp (exactSum scores) := by
      apply ih
      intro before b hbefore
      exact h before b (hbefore.trans (List.prefix_append scores [s]))
    rw [sum_append_singleton, toInt_add, hscores, exactSum_append, exactSum_singleton]
    exact clamp_add_of_outward (h scores s List.prefix_rfl)

/-! ## §2 Three ways not to turn back -/

/-- The exact sum of the first scores is a number of 64 bits after every addition. -/
def StaysInWord (scores : List Score) : Prop :=
  ∀ before, before <+: scores → InWord (exactSum before)

/-- All scores have one sign; zero has both. -/
def OneSign (scores : List Score) : Prop :=
  (∀ s ∈ scores, 0 ≤ s.toInt) ∨ ∀ s ∈ scores, s.toInt ≤ 0

instance (scores : List Score) : Decidable (OneSign scores) :=
  decidable_of_iff
    ((scores.all fun s => 0 ≤ s.toInt) = true ∨ (scores.all fun s => s.toInt ≤ 0) = true)
    (by simp [OneSign])

theorem exactSum_nonneg (h : ∀ s ∈ scores, 0 ≤ s.toInt) : 0 ≤ exactSum scores :=
  List.sum_nonneg (List.forall_mem_map.mpr h)

theorem exactSum_nonpos (h : ∀ s ∈ scores, s.toInt ≤ 0) : exactSum scores ≤ 0 :=
  (List.sum_le_card_nsmul _ 0 (List.forall_mem_map.mpr h)).trans_eq (nsmul_zero _)

theorem StaysInWord.toInt_sum (h : StaysInWord scores) :
    (sum scores).toInt = clamp (exactSum scores) := by
  apply toInt_sum_of_outward
  intro before s hbefore
  exact .inl (h before ((List.prefix_append before [s]).trans hbefore))

theorem OneSign.of_append (h : OneSign (left ++ right)) : OneSign left ∧ OneSign right := by
  rcases h with h | h
  · obtain ⟨hleft, hright⟩ := List.forall_mem_append.mp h
    exact ⟨.inl hleft, .inl hright⟩
  · obtain ⟨hleft, hright⟩ := List.forall_mem_append.mp h
    exact ⟨.inr hleft, .inr hright⟩

theorem OneSign.exactSum_sign (h : OneSign (left ++ right)) :
    (0 ≤ exactSum left ∧ 0 ≤ exactSum right) ∨ (exactSum left ≤ 0 ∧ exactSum right ≤ 0) := by
  rcases h with h | h
  · obtain ⟨hleft, hright⟩ := List.forall_mem_append.mp h
    exact .inl ⟨exactSum_nonneg hleft, exactSum_nonneg hright⟩
  · obtain ⟨hleft, hright⟩ := List.forall_mem_append.mp h
    exact .inr ⟨exactSum_nonpos hleft, exactSum_nonpos hright⟩

theorem OneSign.toInt_sum (h : OneSign scores) :
    (sum scores).toInt = clamp (exactSum scores) := by
  apply toInt_sum_of_outward
  rintro before s ⟨after, rfl⟩
  have hsign := h.of_append.1.exactSum_sign
  rw [exactSum_singleton] at hsign
  -- The sum can have left the range on the side of the common sign only
  simp only [Outward, InWord]
  omega

theorem natAbs_exactSum_le (scores : List Score) :
    (exactSum scores).natAbs ≤ magnitude scores := by
  induction scores with
  | nil => exact Nat.le_refl 0
  | cons s scores ih => exact (Int.natAbs_add_le ..).trans (Nat.add_le_add_left ih _)

theorem inWord_exactSum_of_magnitude_lt (h : magnitude scores < 2 ^ 63) :
    InWord (exactSum scores) := by
  have hle := natAbs_exactSum_le scores
  simp only [InWord]
  omega

theorem staysInWord_of_magnitude_lt (h : magnitude scores < 2 ^ 63) : StaysInWord scores := by
  rintro before ⟨after, rfl⟩
  -- The first scores are no greater together than all of them
  rw [magnitude_append] at h
  exact inWord_exactSum_of_magnitude_lt (Nat.lt_of_le_of_lt (Nat.le_add_right ..) h)

/-! ## §3 Scores in any order and in any groups -/

/-- The scores are small together or have one sign, so that their order does not matter. -/
def OrderFree (scores : List Score) : Prop :=
  magnitude scores < 2 ^ 63 ∨ OneSign scores

theorem OrderFree.toInt_sum (h : OrderFree scores) :
    (sum scores).toInt = clamp (exactSum scores) := by
  rcases h with hsmall | hsign
  · exact (staysInWord_of_magnitude_lt hsmall).toInt_sum
  · exact hsign.toInt_sum

theorem OrderFree.of_perm (h : OrderFree scores) (hperm : left.Perm scores) : OrderFree left := by
  have hmagnitude : magnitude left = magnitude scores := (hperm.map _).sum_eq
  rcases h with hsmall | hsign | hsign
  · exact .inl (hmagnitude ▸ hsmall)
  · exact .inr (.inl fun s hs => hsign s (hperm.mem_iff.mp hs))
  · exact .inr (.inr fun s hs => hsign s (hperm.mem_iff.mp hs))

theorem OrderFree.of_append (h : OrderFree (left ++ right)) :
    OrderFree left ∧ OrderFree right := by
  rcases h with hsmall | hsign
  · rw [magnitude_append] at hsmall
    exact ⟨.inl (by omega), .inl (by omega)⟩
  · exact ⟨.inr hsign.of_append.1, .inr hsign.of_append.2⟩

theorem OrderFree.sum_eq_of_perm (h : OrderFree scores) (hperm : left.Perm scores) :
    sum left = sum scores := by
  have hsum : exactSum left = exactSum scores := (hperm.map _).sum_eq
  rw [← Int64.toInt_inj, (h.of_perm hperm).toInt_sum, h.toInt_sum, hsum]

/-- The sum of the whole is the sum of the sums of two parts. -/
theorem OrderFree.sum_append (h : OrderFree (left ++ right)) :
    sum (left ++ right) = add (sum left) (sum right) := by
  obtain ⟨hleft, hright⟩ := h.of_append
  rw [← Int64.toInt_inj, toInt_add, h.toInt_sum, hleft.toInt_sum, hright.toInt_sum,
    exactSum_append]
  rcases h with hsmall | hsign
  · -- No part leaves the range
    rw [magnitude_append] at hsmall
    have hleft : magnitude left < 2 ^ 63 := by omega
    have hright : magnitude right < 2 ^ 63 := by omega
    obtain ⟨hlow, hhigh⟩ := inWord_exactSum_of_magnitude_lt hleft
    obtain ⟨hlow', hhigh'⟩ := inWord_exactSum_of_magnitude_lt hright
    rw [clamp_eq_self hlow hhigh, clamp_eq_self hlow' hhigh']
  · exact (clamp_clamp_add_clamp hsign.exactSum_sign).symm

/-- The sum of the whole is the sum of the sums of any groups. -/
theorem OrderFree.sum_flatten {groups : List (List Score)} (h : OrderFree groups.flatten) :
    sum groups.flatten = sum (groups.map sum) := by
  -- The last group is the second of two parts
  induction groups using List.reverseRecOn with
  | nil => rfl
  | append_singleton groups group ih =>
    rw [List.flatten_append, List.flatten_singleton] at h ⊢
    rw [h.sum_append, ih h.of_append.1, List.map_append, List.map_singleton, sum_append_singleton]

end Score

/-! ## §4 Outcomes -/

/-- At most `2^40` faces were shown, and each of them is a number of 16 bits. -/
structure Outcome.IsModest (o : Outcome) : Prop where
  length_faces_le : o.faces.length ≤ 2 ^ 40
  face_lt : ∀ face ∈ o.faces, face < UInt16.size

instance (o : Outcome) : Decidable o.IsModest :=
  decidable_of_iff (o.faces.length ≤ 2 ^ 40 ∧ ∀ face ∈ o.faces, face < UInt16.size)
    ⟨fun ⟨hlength, hfaces⟩ => ⟨hlength, hfaces⟩, fun ⟨hlength, hfaces⟩ => ⟨hlength, hfaces⟩⟩

namespace Outcome.IsModest

variable {o : Outcome}

theorem sum_faces_lt (h : o.IsModest) : o.faces.sum < 2 ^ 63 := by
  have hbounds : ∀ face ∈ o.faces, 0 ≤ face ∧ face ≤ UInt16.size :=
    fun face hface => ⟨Nat.zero_le face, Nat.le_of_lt (h.face_lt face hface)⟩
  calc o.faces.sum
    _ ≤ o.faces.length * UInt16.size := (sum_bounds hbounds).2
    _ ≤ 2 ^ 40 * UInt16.size := Nat.mul_le_mul_right _ h.length_faces_le
    _ < 2 ^ 63 := by decide

/-- The sum of the faces is exact after every face. -/
theorem toInt_facesTotal (h : o.IsModest) {shown : List Nat} (hshown : shown <+: o.faces) :
    (Outcome.mk o.term shown).facesTotal.toInt = shown.sum := by
  have hmodest : (Outcome.mk o.term shown).IsModest := by
    refine ⟨hshown.length_le.trans h.length_faces_le, fun face hface => ?_⟩
    exact h.face_lt face (hshown.subset hface)
  exact Outcome.toInt_facesTotal _ hmodest.sum_faces_lt

end Outcome.IsModest

/-! ## §5 Totals -/

/-- The subtotals of a tally's outcomes. -/
def Tally.subtotals (tally : Tally) : List Score :=
  tally.outcomes.map Outcome.subtotal

/-- **When a total can be trusted.** No sum of faces overflows, so each subtotal is the exact sum of
faces and modifier, clamped to 64 bits. The total is the clamped exact sum of the subtotals if that
sum stays within 64 bits from the first to the last of them, or if they have one sign. If they have
one sign or their sizes add up to less than `2^63`, the same outcomes have the same total in every
order and in any groups whose totals are added up. -/
theorem total_is_exact_and_free (tally : Tally) (h : ∀ o ∈ tally.outcomes, o.IsModest) :
    (∀ o ∈ tally.outcomes,
      (∀ shown, shown <+: o.faces →
        (Outcome.mk o.term shown).facesTotal.toInt = shown.sum) ∧
      o.subtotal.toInt = clamp (o.faces.sum + o.term.modifier.toInt)) ∧
    (Score.StaysInWord tally.subtotals ∨ Score.OneSign tally.subtotals →
      tally.total.toInt = clamp (Score.exactSum tally.subtotals)) ∧
    (Score.magnitude tally.subtotals < 2 ^ 63 ∨ Score.OneSign tally.subtotals →
      (∀ other : Tally, other.outcomes.Perm tally.outcomes → other.total = tally.total) ∧
      (∀ left right : Tally, (left.outcomes ++ right.outcomes).Perm tally.outcomes →
        Score.add left.total right.total = tally.total) ∧
      ∀ parts : List Tally, (parts.flatMap Tally.outcomes).Perm tally.outcomes →
        Score.sum (parts.map Tally.total) = tally.total) := by
  refine ⟨fun o ho => ?_, ?_, fun hfree => ?_⟩
  · exact ⟨fun shown hshown => (h o ho).toInt_facesTotal hshown,
      o.toInt_subtotal (h o ho).sum_faces_lt⟩
  · rintro (hword | hsign)
    · exact hword.toInt_sum
    · exact hsign.toInt_sum
  have hfree : Score.OrderFree tally.subtotals := hfree
  refine ⟨fun other hperm => ?_, fun left right hperm => ?_, fun parts hperm => ?_⟩
  · exact hfree.sum_eq_of_perm (hperm.map _)
  · have hperm : (left.subtotals ++ right.subtotals).Perm tally.subtotals := by
      simpa [Tally.subtotals] using hperm.map Outcome.subtotal
    exact (hfree.of_perm hperm).sum_append.symm.trans (hfree.sum_eq_of_perm hperm)
  · -- What holds of groups of scores is said of their outcomes
    have hflatten : (parts.map Tally.subtotals).flatten =
        (parts.flatMap Tally.outcomes).map Outcome.subtotal := by
      rw [← List.flatMap_def, List.map_flatMap]
      rfl
    have hperm : (parts.map Tally.subtotals).flatten.Perm tally.subtotals :=
      hflatten ▸ hperm.map Outcome.subtotal
    have hparts : parts.map Tally.total = (parts.map Tally.subtotals).map Score.sum := by
      simp [Tally.total, Tally.subtotals]
    rw [hparts, ← (hfree.of_perm hperm).sum_flatten]
    exact hfree.sum_eq_of_perm hperm

/-- Three outcomes that reach beyond the range together, one with faces that no die has. -/
def Tally.brimful : Tally where
  expression := "2d8+9223372036854775800 and 2d4 and 3d20-65535"
  outcomes :=
    [⟨⟨2, 8, 9223372036854775800, by decide, by decide⟩, [1, 4]⟩,
      ⟨⟨2, 4, 0, by decide, by decide⟩, [3, 4]⟩,
      ⟨⟨3, 20, -65535, by decide, by decide⟩, [65535, 0, 0]⟩]

/-- Their total is the greatest score, backwards as well and with the last one added to two that
are taken together. -/
theorem brimful_total_is_exact_and_free :
    (∀ o ∈ Tally.brimful.outcomes, o.IsModest) ∧ Score.OneSign Tally.brimful.subtotals ∧
      Score.exactSum Tally.brimful.subtotals = 9223372036854775812 ∧
      Tally.brimful.total.toInt = clamp 9223372036854775812 ∧
      (Tally.mk "" Tally.brimful.outcomes.reverse).total = Tally.brimful.total ∧
      Score.add (Tally.mk "" (Tally.brimful.outcomes.take 2)).total
        (Tally.mk "" (Tally.brimful.outcomes.drop 2)).total = Tally.brimful.total := by
  have hmodest : ∀ o ∈ Tally.brimful.outcomes, o.IsModest := by decide
  have hsign : Score.OneSign Tally.brimful.subtotals := by decide
  have hsum : Score.exactSum Tally.brimful.subtotals = 9223372036854775812 := by decide
  obtain ⟨-, htotal, hfree⟩ := total_is_exact_and_free Tally.brimful hmodest
  obtain ⟨horder, hparts, -⟩ := hfree (.inr hsign)
  refine ⟨hmodest, hsign, hsum, hsum ▸ htotal (.inr hsign), ?_, ?_⟩
  · exact horder _ (List.reverse_perm _)
  · exact hparts _ _ (List.take_append_drop 2 Tally.brimful.outcomes ▸ List.Perm.refl _)

/-- Elsewhere the order matters: the sum leaves the range and turns back. -/
example : Score.sum [Int64.maxValue, 1, -1] ≠ Score.sum [Int64.maxValue, -1, 1] := by
  decide

end DiceNotation
