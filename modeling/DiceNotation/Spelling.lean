import DiceNotation.Text.Numeral
import DiceNotation.Term

/-!
# Spellings

A spelling is a term as it stands in a text: `[count] d sides [modifier]`, with
every number as it was written. A text spells a term at its front by longest
runs of digits, with one exception: a signed number that is followed by dice is
not a modifier but belongs to the next term, as `2` does in `1d6+2d4`.

A spelling that was read and what follows it make up the text
(`eq_append_of_read?`). Checking a spelling gives its term or the first number
that is out of range.
-/

namespace DiceNotation

open Text (Numeral)

/-! ## §1 Signs -/

/-- The sign of a modifier. -/
inductive Sign where
  | plus
  | minus
deriving DecidableEq

namespace Sign

def char : Sign → Char
  | plus => '+'
  | minus => '-'

/-- Reads a sign at the front of a text. -/
def read? : List Char → Option (Sign × List Char)
  | '+' :: rest => some (plus, rest)
  | '-' :: rest => some (minus, rest)
  | _ => none

/-- A sign that was read and what follows it make up the text. -/
theorem eq_cons_of_read? {cs rest : List Char} {sign : Sign} (h : read? cs = some (sign, rest)) :
    cs = sign.char :: rest := by
  unfold read? at h
  split at h
  · obtain ⟨rfl, rfl⟩ := Prod.mk.inj (Option.some.inj h)
    rfl
  · obtain ⟨rfl, rfl⟩ := Prod.mk.inj (Option.some.inj h)
    rfl
  · exact nomatch h

/-- What follows the `+` at the front of a text; the `+` may be left out. -/
def dropPlus : List Char → List Char
  | '+' :: rest => rest
  | cs => cs

/-- Dropping a `+` makes no text longer. -/
theorem length_dropPlus_le (cs : List Char) : (dropPlus cs).length ≤ cs.length := by
  unfold dropPlus
  split
  · exact Nat.le_succ _
  · exact Nat.le_refl _

/-- The greatest size of a signed 64-bit number of this sign. -/
def greatestSize : Sign → Nat
  | plus => Int64.size / 2 - 1
  | minus => Int64.size / 2

/-- The number of this sign and a size. -/
def apply : Sign → Nat → Int
  | plus, size => size
  | minus, size => -size

end Sign

/-! ## §2 The type -/

/-- A sign and the digits after it. -/
structure SignedNumeral where
  sign : Sign
  size : Numeral
deriving DecidableEq

/-- The characters of a signed numeral. -/
def SignedNumeral.chars (m : SignedNumeral) : List Char :=
  m.sign.char :: m.size.digits

/-- A term as it is written. -/
structure Spelling where
  /-- The number of dice, if it is written. -/
  count : Option Numeral
  sides : Numeral
  modifier : Option SignedNumeral
deriving DecidableEq

namespace Spelling

/-- The characters of a spelling. -/
def chars (s : Spelling) : List Char :=
  (s.count.map Numeral.digits).getD [] ++
    'd' :: (s.sides.digits ++ (s.modifier.map SignedNumeral.chars).getD [])

/-! ## §3 Reading -/

/-- Dice start with `d` and a digit once their count is read. -/
def startsDice : List Char → Bool
  | 'd' :: c :: _ => c.isDigit
  | _ => false

/-- Reads a count, which may be left out. -/
def readCount (cs : List Char) : Option Numeral × List Char :=
  match Numeral.read? cs with
  | some (count, rest) => (some count, rest)
  | none => (none, cs)

/-- Reads the `d` of a term and the sides after it. -/
def readSides? : List Char → Option (Numeral × List Char)
  | 'd' :: rest => Numeral.read? rest
  | _ => none

/-- Reads a modifier, unless its number is the count of the next term. -/
def readModifier? (cs : List Char) : Option (SignedNumeral × List Char) := do
  let (sign, rest) ← Sign.read? cs
  let (size, rest) ← Numeral.read? rest
  if startsDice rest then none else some (⟨sign, size⟩, rest)

/-- Reads the modifier after the sides, which may be left out. -/
def readOptionalModifier (cs : List Char) : Option SignedNumeral × List Char :=
  match readModifier? cs with
  | some (modifier, rest) => (some modifier, rest)
  | none => (none, cs)

/-- Reads a spelling at the front of a text and gives what follows it. -/
def read? (cs : List Char) : Option (Spelling × List Char) := do
  let (count, rest) := readCount cs
  let (sides, rest) ← readSides? rest
  let (modifier, rest) := readOptionalModifier rest
  some (⟨count, sides, modifier⟩, rest)

/-! ## §4 What was read -/

/-- Helper: a count that was read and what follows it make up the text. -/
private theorem eq_append_of_readCount (cs : List Char) :
    cs = ((readCount cs).1.map Numeral.digits).getD [] ++ (readCount cs).2 := by
  unfold readCount
  split
  · next h => exact Numeral.eq_append_of_read? h
  · rfl

/-- Helper: sides that were read, their `d`, and what follows them make up the text. -/
private theorem eq_cons_of_readSides? {cs rest : List Char} {sides : Numeral}
    (h : readSides? cs = some (sides, rest)) : cs = 'd' :: (sides.digits ++ rest) := by
  unfold readSides? at h
  split at h
  · rw [Numeral.eq_append_of_read? h]
  · exact nomatch h

/-- Helper: a modifier that was read and what follows it make up the text. -/
private theorem eq_append_of_readModifier? {cs rest : List Char} {modifier : SignedNumeral}
    (h : readModifier? cs = some (modifier, rest)) : cs = modifier.chars ++ rest := by
  simp only [readModifier?, Option.bind_eq_bind, Option.bind_eq_some_iff] at h
  obtain ⟨⟨sign, afterSign⟩, hsign, ⟨size, afterSize⟩, hsize, h⟩ := h
  split at h
  · exact nomatch h
  · obtain ⟨rfl, rfl⟩ := Prod.mk.inj (Option.some.inj h)
    exact (Sign.eq_cons_of_read? hsign).trans
      (congrArg (sign.char :: ·) (Numeral.eq_append_of_read? hsize))

/-- Helper: an optional modifier and what follows it make up the text. -/
private theorem eq_append_of_readOptionalModifier (cs : List Char) :
    cs = ((readOptionalModifier cs).1.map SignedNumeral.chars).getD [] ++
      (readOptionalModifier cs).2 := by
  unfold readOptionalModifier
  split
  · next h => exact eq_append_of_readModifier? h
  · rfl

/-- A spelling that was read and what follows it make up the text. -/
theorem eq_append_of_read? {cs rest : List Char} {s : Spelling} (h : read? cs = some (s, rest)) :
    cs = s.chars ++ rest := by
  simp only [read?, Option.bind_eq_bind, Option.bind_eq_some_iff] at h
  obtain ⟨⟨sides, afterSides⟩, hsides, h⟩ := h
  obtain ⟨rfl, rfl⟩ := Prod.mk.inj (Option.some.inj h)
  calc cs
    _ = ((readCount cs).1.map Numeral.digits).getD [] ++ (readCount cs).2 :=
      eq_append_of_readCount cs
    _ = ((readCount cs).1.map Numeral.digits).getD [] ++ 'd' :: (sides.digits ++ afterSides) := by
      rw [eq_cons_of_readSides? hsides]
    _ = ((readCount cs).1.map Numeral.digits).getD [] ++ 'd' :: (sides.digits ++
          (((readOptionalModifier afterSides).1.map SignedNumeral.chars).getD [] ++
            (readOptionalModifier afterSides).2)) := by
      rw [← eq_append_of_readOptionalModifier afterSides]
    _ = _ := by
      simp only [chars, List.append_assoc, List.cons_append]

/-- What follows a spelling is shorter than the text it was read from. -/
theorem length_lt_of_read? {cs rest : List Char} {s : Spelling} (h : read? cs = some (s, rest)) :
    rest.length < cs.length := by
  rw [eq_append_of_read? h]
  simp only [chars, List.length_append, List.length_cons]
  omega

/-! ## §5 Checking -/

/-- The number of dice: one when it is left out. It is read as a word of 8 bits. -/
def checkedCount (s : Spelling) : Except NotationError Nat :=
  match s.count with
  | none => .ok 1
  | some written =>
    match written.between? (UInt8.size - 1) 1 Term.maxCount with
    | some count => .ok count
    | none => .error (.count written.text)

/-- The number of sides. It is read as a word of 16 bits. -/
def checkedSides (s : Spelling) : Except NotationError Nat :=
  match s.sides.between? (UInt16.size - 1) 1 Term.maxSides with
  | some sides => .ok sides
  | none => .error (.sides s.sides.text)

/-- The modifier: zero when it is left out. -/
def checkedModifier (s : Spelling) : Except NotationError Score :=
  match s.modifier with
  | none => .ok 0
  | some written =>
    match written.size.upTo? written.sign.greatestSize with
    | some size => .ok (Int64.ofInt (written.sign.apply size))
    | none => .error (.modifier (String.ofList written.chars))

/-- The term of a spelling, or the first of its count, sides and modifier that is out
of range. -/
def toTerm (s : Spelling) : Except NotationError Term := do
  let count ← s.checkedCount
  let sides ← s.checkedSides
  let modifier ← s.checkedModifier
  Term.make count sides modifier

end Spelling

end DiceNotation
