import DiceNotation.Spelling

/-!
# The Lenient Grammar

Finds every term of a text from left to right and passes over everything else,
one character at a time. It never fails; a text without dice has no terms.
-/

namespace DiceNotation.Spelling

/-- The spellings in a text: where one can be read it is taken, else one character is
passed over. -/
def findAll : List Char → List Spelling
  | [] => []
  | c :: cs =>
    match _h : read? (c :: cs) with
    | some (s, rest) => s :: findAll rest
    | none => findAll cs
termination_by cs => cs.length
decreasing_by
  · exact length_lt_of_read? _h
  · exact Nat.lt_succ_self cs.length

/-- A spelling at the front of a text is the first one found. -/
theorem findAll_of_read?_eq_some {cs rest : List Char} {s : Spelling}
    (h : read? cs = some (s, rest)) : findAll cs = s :: findAll rest := by
  cases cs with
  | nil => exact absurd (length_lt_of_read? h) (Nat.not_lt_zero _)
  | cons c cs =>
    rw [findAll]
    split
    · next h' =>
      obtain ⟨rfl, rfl⟩ := Prod.mk.inj (Option.some.inj (h'.symm.trans h))
      rfl
    · next h' => exact nomatch h'.symm.trans h

/-- A character at which no spelling starts is passed over. -/
theorem findAll_cons_of_read?_eq_none {c : Char} {cs : List Char} (h : read? (c :: cs) = none) :
    findAll (c :: cs) = findAll cs := by
  rw [findAll]
  split
  · next h' => exact nomatch h'.symm.trans h
  · rfl

end DiceNotation.Spelling
