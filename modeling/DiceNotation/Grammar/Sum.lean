import DiceNotation.Spelling

/-!
# The Strict Grammar

A sum is one or more terms, with an optional `+` between two neighbours and
nothing else before, between or after them.
-/

namespace DiceNotation.Spelling

/-- Reads the rest of a sum after one of its terms, to the end of the text. -/
def readMore? : List Char → Option (List Spelling)
  | [] => some []
  | c :: cs =>
    match _h : read? (Sign.dropPlus (c :: cs)) with
    | some (s, rest) => (readMore? rest).map (s :: ·)
    | none => none
termination_by cs => cs.length
decreasing_by
  exact Nat.lt_of_lt_of_le (length_lt_of_read? _h) (Sign.length_dropPlus_le (c :: cs))

/-- A term that stands after the optional `+` is the next one of the sum. -/
theorem readMore?_of_read?_eq_some {cs rest : List Char} {s : Spelling}
    (h : read? (Sign.dropPlus cs) = some (s, rest)) :
    readMore? cs = (readMore? rest).map (s :: ·) := by
  cases cs with
  | nil => exact absurd (length_lt_of_read? h) (Nat.not_lt_zero _)
  | cons c cs =>
    rw [readMore?]
    split
    · next h' =>
      obtain ⟨rfl, rfl⟩ := Prod.mk.inj (Option.some.inj (h'.symm.trans h))
      rfl
    · next h' => exact nomatch h'.symm.trans h

/-- Text that is not a term after the optional `+` does not belong to a sum. -/
theorem readMore?_cons_of_read?_eq_none {c : Char} {cs : List Char}
    (h : read? (Sign.dropPlus (c :: cs)) = none) : readMore? (c :: cs) = none := by
  rw [readMore?]
  split
  · next h' => exact nomatch h'.symm.trans h
  · rfl

/-- Reads a whole text as a sum. -/
def readSum? (cs : List Char) : Option (List Spelling) := do
  let (first, rest) ← read? cs
  let more ← readMore? rest
  some (first :: more)

/-- A sum is its first term and what is read behind it. -/
theorem readSum?_of_read?_eq_some {cs rest : List Char} {s : Spelling}
    (h : read? cs = some (s, rest)) : readSum? cs = (readMore? rest).map (s :: ·) := by
  cases hmore : readMore? rest <;> simp [readSum?, h, hmore]

/-- Reads a whole text as a single term. -/
def readTerm? (cs : List Char) : Option Spelling :=
  match read? cs with
  | some (s, []) => some s
  | _ => none

end DiceNotation.Spelling
