/-!
# Numerals

A numeral is a non-empty run of the ASCII digits `0` to `9`, kept as it was
written. It is read greedily from the front of a text, and it is turned into a
number only up to a limit, so its length never matters.
-/

namespace DiceNotation.Text

/-! ## §1 Written numbers -/

/-- A number as it is written: at least one digit, leading zeros included. -/
structure Numeral where
  /-- The digits in the order of writing. -/
  digits : List Char
  /-- There is at least one digit. -/
  nonempty : digits ≠ []
  /-- Nothing but digits is written. -/
  decimal : digits.all Char.isDigit = true
deriving DecidableEq

namespace Numeral

/-- The text of a numeral. -/
def text (n : Numeral) : String :=
  String.ofList n.digits

/-! ## §2 Reading -/

/-- Reads the longest numeral at the front of a text and gives what follows it. -/
def read? (cs : List Char) : Option (Numeral × List Char) :=
  if nonempty : cs.takeWhile Char.isDigit ≠ [] then
    some (⟨cs.takeWhile Char.isDigit, nonempty, List.all_takeWhile⟩, cs.dropWhile Char.isDigit)
  else
    none

/-- A numeral that was read and what follows it make up the text. -/
theorem eq_append_of_read? {cs rest : List Char} {n : Numeral} (h : read? cs = some (n, rest)) :
    cs = n.digits ++ rest := by
  unfold read? at h
  split at h
  · obtain ⟨rfl, rfl⟩ := Prod.mk.inj (Option.some.inj h)
    exact List.takeWhile_append_dropWhile.symm
  · exact nomatch h

/-! ## §3 Value -/

/-- The value of a digit. -/
def digitValue (c : Char) : Nat :=
  c.toNat - '0'.toNat

/-- Reads digits from the left after a part of value `sum`, and gives up as soon as
the value exceeds `limit`. -/
def upToFrom? (limit : Nat) : Nat → List Char → Option Nat
  | sum, [] => some sum
  | sum, c :: cs =>
    let next := 10 * sum + digitValue c
    if next ≤ limit then upToFrom? limit next cs else none

/-- The value of a numeral, if it is at most `limit`. -/
def upTo? (limit : Nat) (n : Numeral) : Option Nat :=
  upToFrom? limit 0 n.digits

/-- The value of a numeral, if a word that holds the numbers up to `greatest` holds it and
it lies between `low` and `high`. -/
def between? (greatest low high : Nat) (n : Numeral) : Option Nat :=
  (n.upTo? greatest).filter fun value => low ≤ value ∧ value ≤ high

end Numeral

end DiceNotation.Text
