import DiceNotation.Term

/-!
# Outcomes

What rolling shows: the faces of one term's dice with their subtotal, and the
outcomes of a whole expression with their total.
-/

namespace DiceNotation

/-! ## §1 One term -/

/-- A term and the faces that were rolled for it, in order. -/
structure Outcome where
  term : Term
  faces : List Nat
deriving DecidableEq

namespace Outcome

/-- The sum of the faces, as a 64-bit word. -/
def facesTotal (o : Outcome) : Score :=
  o.faces.foldl (fun sum face => sum + Int64.ofNat face) 0

/-- The sum of the faces and the modifier. -/
def subtotal (o : Outcome) : Score :=
  Score.add o.facesTotal o.term.modifier

/-- An outcome reads `2d6: [4+5]-3 = 6`. -/
def text (o : Outcome) : String :=
  o.term.diceText ++ ": [" ++ "+".intercalate (o.faces.map fun face => toString face) ++ "]" ++
    o.term.modifierText ++ " = " ++ Score.text o.subtotal

/-- Every face is one of the die's, and the subtotal is one that the term can have. -/
def InRange (o : Outcome) : Prop :=
  (∀ face ∈ o.faces, 1 ≤ face ∧ face ≤ o.term.sides) ∧
    o.term.minTotal ≤ o.subtotal ∧ o.subtotal ≤ o.term.maxTotal

instance (o : Outcome) : Decidable o.InRange :=
  inferInstanceAs (Decidable (_ ∧ _))

end Outcome

/-! ## §2 A whole expression -/

/-- The outcomes of an expression's terms, in order. -/
structure Tally where
  /-- The expression as it was given. -/
  expression : String
  outcomes : List Outcome
deriving DecidableEq

namespace Tally

/-- The sum of the subtotals, from left to right. -/
def total (t : Tally) : Score :=
  Score.sum (t.outcomes.map Outcome.subtotal)

def fragments (t : Tally) : List String :=
  t.outcomes.map Outcome.text

/-- The texts of the outcomes in one line. -/
def breakdown (t : Tally) : String :=
  " | ".intercalate t.fragments

/-- The canonical notation of the terms that were rolled. -/
def canonical (t : Tally) : String :=
  canonicalText (t.outcomes.map Outcome.term)

/-- A tally reads `EXPRESSION: BREAKDOWN = TOTAL`. -/
def text (t : Tally) : String :=
  t.expression ++ ": " ++ t.breakdown ++ " = " ++ Score.text t.total

end Tally

end DiceNotation
