import DiceNotation.Roller

/-!
# Generated Faces

A generator turns a seed into a sequence of 64-bit words: its state grows by a
constant, and a word is made from the halves of a product of the state with a mask
of it.

A face is drawn by multiplying the low 32 bits of a word by the number of sides:
the high half of the product is the face, and the low half tells whether the word
is kept. Dropping the words whose low half is below `2^32 mod sides` leaves every
face with equally many words.
-/

namespace DiceNotation

/-! ## §1 Words -/

/-- A generator of 64-bit words. -/
structure Generator where
  /-- The seed, advanced by every word that was drawn. -/
  state : UInt64
deriving DecidableEq

namespace Generator

/-- What the state grows by with every word. -/
def increment : UInt64 := 0x2d358dccaa6c78a5

/-- What the state is masked with. -/
def mask : UInt64 := 0x8bb84b93962eacc9

/-- The word that belongs to a state: the low half of the product of the state and its
masked form, combined with the high half. -/
def scramble (x : UInt64) : UInt64 :=
  let product := x.toNat * (x ^^^ mask).toNat
  UInt64.ofNat product ^^^ UInt64.ofNat (product / UInt64.size)

/-- The next word and the generator after it. -/
def next (g : Generator) : UInt64 × Generator :=
  let x := g.state + increment
  (scramble x, ⟨x⟩)

/-- The generator after a number of words. -/
def skip (g : Generator) (words : Nat) : Generator :=
  ⟨g.state + UInt64.ofNat words * increment⟩

/-! ## §2 Faces -/

/-- The product by which a word chooses a face. -/
def product (sides : Nat) (word : UInt64) : Nat :=
  word.toNat % UInt32.size * sides

/-- The low halves below this are dropped: `2^32 mod sides`, found without a number
above 32 bits. -/
def threshold (sides : Nat) : Nat :=
  (UInt32.size - sides) % sides

/-- Whether a word with this low half is kept. A low half of at least `sides` is kept
without looking at the threshold. -/
def keeps (sides low : Nat) : Bool :=
  sides ≤ low || threshold sides ≤ low

/-- Draws words until one is kept, and gives the high half of its product. Past the last
of `tries` words that are dropped, the next one is taken as it is. -/
def choose (sides : Nat) : (tries : Nat) → Generator → Nat × Generator
  | 0, g =>
    let (word, g) := g.next
    (product sides word / UInt32.size, g)
  | tries + 1, g =>
    let (word, g) := g.next
    if keeps sides (product sides word % UInt32.size) then
      (product sides word / UInt32.size, g)
    else
      choose sides tries g

/-- How many words a generator has before it repeats itself. -/
def period : Nat := UInt64.size

/-- The face of a die. A die without sides shows zero, and no word is drawn for it. -/
def face (sides : Nat) (g : Generator) : Nat × Generator :=
  if sides = 0 then
    (0, g)
  else
    let (index, g) := choose sides period g
    (1 + index, g)

end Generator

/-! ## §3 The roller -/

/-- Shows the faces of a generator. -/
def Roller.seeded : Roller Generator where
  die sides g :=
    let (face, g) := g.face sides
    (some face, g)

/-- A generator has a face for every die. -/
theorem Roller.seeded_unfailing : Roller.seeded.Unfailing :=
  fun _ _ => rfl

end DiceNotation
