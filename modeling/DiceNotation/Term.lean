import DiceNotation.NotationError
import DiceNotation.Score

/-!
# Dice Terms

A term is a number of like dice and a modifier that is added to their sum, such
as `2d6+3`. Its bounds are part of its type: every term can be rolled.
-/

namespace DiceNotation

/-! ## §1 The type -/

/-- The greatest number of dice in a term. -/
def Term.maxCount : Nat := 100

/-- The greatest number of sides of a die. -/
def Term.maxSides : Nat := 1000

/-- `count` dice of `sides` sides, and a modifier for their sum. -/
structure Term where
  count : Nat
  sides : Nat
  modifier : Score
  /-- There is a die, and there are not too many. -/
  count_bounds : 1 ≤ count ∧ count ≤ Term.maxCount
  /-- A die has a side, and not too many. -/
  sides_bounds : 1 ≤ sides ∧ sides ≤ Term.maxSides
deriving DecidableEq

namespace Term

/-- Builds a term after checking the count, then the sides. -/
def make (count sides : Nat) (modifier : Score) : Except NotationError Term :=
  if count_bounds : 1 ≤ count ∧ count ≤ maxCount then
    if sides_bounds : 1 ≤ sides ∧ sides ≤ maxSides then
      .ok ⟨count, sides, modifier, count_bounds, sides_bounds⟩
    else
      .error (.sides (toString sides))
  else
    .error (.count (toString count))

/-- A term is built iff both numbers are within bounds. -/
theorem make_eq_ok_iff {count sides : Nat} {modifier : Score} {t : Term} :
    make count sides modifier = .ok t ↔
      t.count = count ∧ t.sides = sides ∧ t.modifier = modifier := by
  constructor
  · intro h
    unfold make at h
    split at h
    · split at h
      · obtain rfl := Except.ok.inj h
        exact ⟨rfl, rfl, rfl⟩
      · exact nomatch h
    · exact nomatch h
  · rintro ⟨rfl, rfl, rfl⟩
    rw [make, dif_pos t.count_bounds, dif_pos t.sides_bounds]

/-! ## §2 Totals -/

/-- The subtotal when every die shows one. -/
def minTotal (t : Term) : Score :=
  Score.add (Int64.ofNat t.count) t.modifier

/-- The subtotal when every die shows its highest face. -/
def maxTotal (t : Term) : Score :=
  Score.add (Score.nearest (t.count * t.sides)) t.modifier

/-- A term of one-sided dice has one subtotal only. -/
def isDeterministic (t : Term) : Bool :=
  t.sides == 1

/-! ## §3 Canonical notation -/

/-- The modifier as canonical notation writes it: left out when it is zero. -/
def modifierText (t : Term) : String :=
  if t.modifier = 0 then "" else Score.signedText t.modifier

/-- The dice of a term without its modifier. -/
def diceText (t : Term) : String :=
  toString t.count ++ "d" ++ toString t.sides

/-- The canonical notation of a term: the count is always written. -/
def text (t : Term) : String :=
  t.diceText ++ t.modifierText

end Term

/-- The canonical notation of a list of terms. -/
def canonicalText (terms : List Term) : String :=
  "+".intercalate (terms.map Term.text)

end DiceNotation
