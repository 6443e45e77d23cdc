import DiceNotation.Grammar.Sum

/-!
# Diagnosis of the Strict Grammar

Where and why a text is not a sum. While a text is read, every step that cannot go
on leaves a *candidate*: how far the reading had got, what was found there and what
would have let it go on. The candidate that got furthest is the diagnosis, even if
the reading went back and took another way afterwards; of two that got equally far
the earlier one stays, and what the later one expected is added to it.

A part of the grammar that has a name is asked for by that name when its reading
did not get anywhere.

All offsets are in bytes of UTF-8.
-/

namespace DiceNotation

/-! ## §1 Positions -/

/-- A place in a text. -/
structure Position where
  /-- The number of bytes before the place. -/
  offset : Nat
  /-- The characters after the place. -/
  rest : List Char
deriving DecidableEq

namespace Position

/-- The offset after the next character, if there is one. -/
def next (p : Position) : Nat :=
  match p.rest with
  | [] => p.offset
  | c :: _ => p.offset + c.utf8Size

/-- The place after the digits that stand here. -/
def afterDigits (p : Position) : Position :=
  ⟨p.offset + (p.rest.takeWhile Char.isDigit).length, p.rest.dropWhile Char.isDigit⟩

/-- The place after the `+` that may stand here. -/
def afterPlus (p : Position) : Position :=
  match p.rest with
  | '+' :: rest => ⟨p.offset + 1, rest⟩
  | _ => p

/-- After an optional `+` stands what the grammar reads there. -/
theorem rest_afterPlus (p : Position) : p.afterPlus.rest = Sign.dropPlus p.rest := by
  unfold afterPlus
  split
  · next h => exact (congrArg Sign.dropPlus h).symm
  · next h =>
    unfold Sign.dropPlus
    split
    · next rest h' => exact absurd h' (h rest)
    · rfl

end Position

/-! ## §2 Candidates -/

/-- What a step of the reading can ask for. -/
inductive Expectation where
  | plus
  | minus
  | letterD
  | modifier
  | term
  | endOfInput
deriving DecidableEq

def Expectation.text : Expectation → String
  | plus => "'+'"
  | minus => "'-'"
  | letterD => "'d'"
  | modifier => "modifier"
  | term => "dice term"
  | endOfInput => "end of input"

/-- A failed step of the reading. -/
structure Candidate where
  /-- How far the reading had got. -/
  reach : Nat
  /-- What would have let it go on. -/
  expected : List Expectation
  /-- The character that was found, if the text had not ended. -/
  found : Option Char
  /-- The offset where the offending text starts. -/
  start : Nat
  /-- The offset after the offending text. -/
  stop : Nat
deriving DecidableEq

namespace Candidate

/-- The next character is none of those expected. -/
def here (p : Position) (expected : List Expectation) : Candidate where
  reach := p.offset
  expected := expected
  found := p.rest.head?
  start := p.offset
  stop := p.next

/-- The candidate of two that got further; the earlier one if both got equally far, with
what the later one expected added to it. -/
def furthest (earlier later : Candidate) : Candidate :=
  if earlier.reach < later.reach then later
  else if later.reach < earlier.reach then earlier
  else
    { earlier with
      expected := earlier.expected ++ later.expected.filter (· ∉ earlier.expected) }

/-- A named part that did not get anywhere is asked for by its name. -/
def named (name : Expectation) (start : Position) (c : Candidate) : Candidate :=
  if c.reach = start.offset then { c with expected := [name] } else c

/-! ## §3 What the parts leave -/

/-- The candidate that reading a modifier leaves. A missing sign is noticed after the
character in its place; a modifier that turns out to be the count of the next term is
noticed after the `d`, and the offending text is that `d` with its sides. -/
def ofModifier (p : Position) : Candidate :=
  named .modifier p <|
    match Sign.read? p.rest with
    | none => { here p [.plus, .minus] with reach := p.next }
    | some (_, rest) =>
      let size : Position := ⟨p.offset + 1, rest⟩
      let stop := size.afterDigits
      if (Text.Numeral.read? rest).isSome && Spelling.startsDice stop.rest then
        let sides : Position := ⟨stop.offset + 1, stop.rest.tail⟩
        { reach := sides.offset
          expected := []
          found := some 'd'
          start := stop.offset
          stop := sides.afterDigits.offset }
      else
        here stop []

/-- The candidate that reading a term leaves, whether it was read or not. A run of digits
leaves one at its end. -/
def ofTerm (p : Position) : Candidate :=
  let letter := p.afterDigits
  named .term p <|
    match letter.rest with
    | 'd' :: rest =>
      let sides : Position := ⟨letter.offset + 1, rest⟩
      let stop := sides.afterDigits
      let digits := (here letter []).furthest (here stop [])
      if (Text.Numeral.read? rest).isSome then digits.furthest (ofModifier stop) else digits
    | _ => (here letter []).furthest (here letter [.letterD])

/-- The candidate that the optional `+` before a term leaves, given the one held so far. -/
def ofPlus (p : Position) (held : Candidate) : Candidate :=
  match p.rest with
  | '+' :: _ => held
  | _ => held.furthest (here p [.plus])

/-- The candidate that reading the rest of a sum leaves, given the one held so far. -/
def ofMore (p : Position) (held : Candidate) : Candidate :=
  let next := p.afterPlus
  let held := (ofPlus p held).furthest (ofTerm next)
  match _h : Spelling.read? next.rest with
  | some (s, rest) => ofMore ⟨next.offset + s.chars.length, rest⟩ held
  | none => held.furthest (here p [.endOfInput])
termination_by p.rest.length
decreasing_by
  exact Nat.lt_of_lt_of_le (Spelling.length_lt_of_read? _h)
    (p.rest_afterPlus ▸ Sign.length_dropPlus_le p.rest)

/-! ## §4 Diagnoses -/

/-- The diagnosis of a text that is not a sum. -/
def ofSum (cs : List Char) : Candidate :=
  let held := ofTerm ⟨0, cs⟩
  match Spelling.read? cs with
  | some (s, rest) => ofMore ⟨s.chars.length, rest⟩ held
  | none => held

/-- The diagnosis of a text that is not a single term. -/
def ofSingleTerm (cs : List Char) : Candidate :=
  let held := ofTerm ⟨0, cs⟩
  match Spelling.read? cs with
  | some (s, rest) => held.furthest (here ⟨s.chars.length, rest⟩ [.endOfInput])
  | none => held

/-! ## §5 Messages -/

/-- The words for several expectations. -/
def alternatives : List String → String
  | [] => "something else"
  | [a] => a
  | [a, b] => a ++ ", or " ++ b
  | a :: rest => a ++ ", " ++ alternatives rest

/-- The words for what was found: the character itself, or the end of the input. -/
def foundText (c : Candidate) : String :=
  match c.found with
  | some ch => ch.toString
  | none => "end of input"

/-- The syntax error that a candidate stands for. -/
def toSyntaxError (c : Candidate) : SyntaxError where
  start := c.start
  stop := c.stop
  message :=
    "found " ++ c.foundText ++ " expected " ++ alternatives (c.expected.map Expectation.text)

end Candidate

end DiceNotation
