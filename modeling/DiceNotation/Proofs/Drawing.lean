import DiceNotation.Roller.Generator

/-!
# Drawn Faces

A face is drawn from as many words as it takes: a word is dropped as long as the low half of
its product is below `(2^32 - sides) % sides`, and the high half of the first one that is kept
is the index of the face (`Generator.Draws`). A generator comes through all of its states in one
period (`Generator.exists_skip_eq`), and the word of one of them is kept whatever the sides are,
so the drawing ends and every face is drawn that way (`Generator.draws_face`). An index that was
drawn is one of the die's (`Generator.Draws.index_lt`).
-/

namespace DiceNotation.Generator

/-! ## §1 Drawing -/

/-- From one generator to another the index of a face is drawn. -/
inductive Draws (sides : Nat) : Generator → Nat → Generator → Prop where
  /-- The next word is kept. -/
  | kept {g : Generator} : threshold sides ≤ product sides g.next.1 % UInt32.size →
      Draws sides g (product sides g.next.1 / UInt32.size) g.next.2
  /-- The next word is dropped, and the index is drawn from the words behind it. -/
  | dropped {g g' : Generator} {index : Nat} :
      product sides g.next.1 % UInt32.size < threshold sides →
        Draws sides g.next.2 index g' → Draws sides g index g'

variable {sides : Nat}

theorem product_div_lt (hsides : 0 < sides) (word : UInt64) :
    product sides word / UInt32.size < sides := by
  have hlow : word.toNat % UInt32.size < UInt32.size := Nat.mod_lt _ (by decide)
  exact Nat.div_lt_of_lt_mul (Nat.mul_lt_mul_of_pos_right hlow hsides)

/-- An index that was drawn is one of the die's, however many words were dropped. -/
theorem Draws.index_lt {g g' : Generator} {index : Nat} (h : Draws sides g index g')
    (hsides : 0 < sides) : index < sides := by
  induction h with
  | kept => exact product_div_lt hsides _
  | dropped _ _ ih => exact ih

/-- Looking at the sides first does not change which words are kept. -/
theorem keeps_iff (hsides : 0 < sides) (low : Nat) :
    keeps sides low = true ↔ threshold sides ≤ low := by
  have hthreshold : threshold sides < sides := Nat.mod_lt _ hsides
  rw [keeps, Bool.or_eq_true, decide_eq_true_iff, decide_eq_true_iff]
  omega

/-! ## §2 Words to come -/

theorem skip_zero (g : Generator) : g.skip 0 = g := by
  simp [skip]

theorem skip_succ (g : Generator) (words : Nat) : g.skip (words + 1) = g.next.2.skip words := by
  have hwords : UInt64.ofNat (words + 1) = UInt64.ofNat words + 1 := UInt64.ofNat_add words 1
  rw [skip, skip, next, hwords, UInt64.add_mul, UInt64.one_mul, UInt64.add_assoc,
    UInt64.add_comm increment]

theorem choose_succ (sides tries : Nat) (g : Generator) :
    choose sides (tries + 1) g =
      if keeps sides (product sides g.next.1 % UInt32.size) then
        (product sides g.next.1 / UInt32.size, g.next.2)
      else choose sides tries g.next.2 :=
  rfl

/-- If one of the next words is kept, an index is drawn. -/
theorem draws_choose (hsides : 0 < sides) {tries : Nat} {g : Generator}
    (h : ∃ words < tries,
      threshold sides ≤ product sides (g.skip words).next.1 % UInt32.size) :
    Draws sides g (choose sides tries g).1 (choose sides tries g).2 := by
  induction tries generalizing g with
  | zero =>
    obtain ⟨words, hwords, -⟩ := h
    exact absurd hwords (Nat.not_lt_zero _)
  | succ tries ih =>
    rw [choose_succ]
    by_cases hkeeps : threshold sides ≤ product sides g.next.1 % UInt32.size
    · rw [if_pos ((keeps_iff hsides _).mpr hkeeps)]
      exact .kept hkeeps
    · rw [if_neg (mt (keeps_iff hsides _).mp hkeeps)]
      obtain ⟨words, hwords, hkept⟩ := h
      cases words with
      | zero =>
        rw [skip_zero] at hkept
        exact absurd hkept hkeeps
      | succ words =>
        rw [skip_succ] at hkept
        exact .dropped (Nat.lt_of_not_le hkeeps) (ih ⟨words, Nat.lt_of_succ_lt_succ hwords, hkept⟩)

/-! ## §3 One period -/

/-- What makes one of the increment. -/
def inverse : UInt64 := 0x32e25c49d2beaf2d

/-- In one period a generator comes to every state. -/
theorem exists_skip_eq (g : Generator) (state : UInt64) :
    ∃ words < period, g.skip words = ⟨state⟩ := by
  refine ⟨((state - g.state) * inverse).toNat, UInt64.toNat_lt _, ?_⟩
  have hinverse : inverse * increment = 1 := by decide
  rw [skip, UInt64.ofNat_toNat, UInt64.mul_assoc, hinverse, UInt64.mul_one, UInt64.add_comm,
    UInt64.sub_add_cancel]

/-- The state of the generator whose word ends in a one. -/
def unitState : UInt64 := 0xa1ba1a55 - increment

/-- The word of this state is kept for every die. -/
theorem threshold_le_product_unitState (hsides : 0 < sides) :
    threshold sides ≤ product sides (Generator.mk unitState).next.1 % UInt32.size := by
  have hword : (Generator.mk unitState).next.1.toNat % UInt32.size = 1 := by decide
  rw [product, hword, Nat.one_mul, threshold]
  by_cases hsize : sides < UInt32.size
  · rw [Nat.mod_eq_of_lt hsize]
    exact Nat.le_of_lt (Nat.mod_lt _ hsides)
  · -- Nothing is left to be dropped
    rw [Nat.sub_eq_zero_of_le (Nat.le_of_not_lt hsize), Nat.zero_mod]
    exact Nat.zero_le _

/-- **Every face is drawn**: the drawing ends before the words are used up. -/
theorem draws_face (hsides : 0 < sides) (g : Generator) :
    ∃ index g', g.face sides = (1 + index, g') ∧ Draws sides g index g' := by
  obtain ⟨words, hwords, hskip⟩ := g.exists_skip_eq unitState
  have hkept := threshold_le_product_unitState hsides
  rw [← hskip] at hkept
  refine ⟨_, _, ?_, draws_choose hsides ⟨words, hwords, hkept⟩⟩
  rw [face, if_neg (Nat.ne_of_gt hsides)]

end DiceNotation.Generator
