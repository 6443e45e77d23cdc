/-!
# Scores

Modifiers, subtotals and totals are signed 64-bit words. A sum of two scores
that leaves their range stops at its end instead of wrapping around.
-/

namespace DiceNotation

/-- A signed 64-bit number. -/
abbrev Score := Int64

namespace Score

/-- The score nearest to an integer. -/
def nearest (z : Int) : Score :=
  Int64.ofIntClamp z

/-- Addition that stops at the ends of the range. -/
def add (a b : Score) : Score :=
  nearest (a.toInt + b.toInt)

/-- The sum of scores from left to right, starting at zero and stopping at the ends
of the range at every addition. -/
def sum (scores : List Score) : Score :=
  scores.foldl add 0

/-- A score in decimal, with `-` in front when it is negative. -/
def text (s : Score) : String :=
  toString s.toInt

/-- A score in decimal, with its sign always written. -/
def signedText (s : Score) : String :=
  if 0 ≤ s.toInt then "+" ++ text s else text s

end Score

end DiceNotation
