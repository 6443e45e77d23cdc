import DiceNotation.Roller

/-!
# Scripted Faces

A script is a list of faces to be shown in order, just as they are written, even
if no die has such a face. A repeating script starts again at its end.

A script can be asked whether it has a face left. To answer it takes the next face
and keeps it for the die that is rolled next.
-/

namespace DiceNotation

/-- Faces to be shown in order. -/
structure Script where
  /-- The faces that come next. -/
  upcoming : List Nat
  /-- The faces that follow when those are used up, again and again. -/
  refrain : List Nat
  /-- What looking ahead has found, a face or none, until a die is rolled. -/
  ahead : Option (Option Nat) := none
deriving DecidableEq

namespace Script

/-- A script that shows its faces once. -/
def once (faces : List Nat) : Script where
  upcoming := faces
  refrain := []

/-- A script that shows its faces over and over. -/
def repeating (faces : List Nat) : Script where
  upcoming := faces
  refrain := faces

/-- Takes the next of the faces to come, if there is one. -/
def take (s : Script) : Option Nat × Script :=
  match s.upcoming with
  | face :: faces => (some face, { s with upcoming := faces })
  | [] =>
    match s.refrain with
    | face :: faces => (some face, { s with upcoming := faces })
    | [] => (none, s)

/-- Looks at the next face and keeps what is found. -/
def look (s : Script) : Option Nat × Script :=
  match s.ahead with
  | some found => (found, s)
  | none =>
    let (found, s) := s.take
    (found, { s with ahead := some found })

/-- The next face, if there is one: what was kept, else one that is taken now. -/
def next (s : Script) : Option Nat × Script :=
  match s.ahead with
  | some found => (found, { s with ahead := none })
  | none => s.take

/-- Whether there is a face left. -/
def canRoll (s : Script) : Bool × Script :=
  let (found, s) := s.look
  (found.isSome, s)

end Script

/-- Shows the faces of a script, until there is none left. -/
def Roller.scripted : Roller Script where
  die _ s := s.next

end DiceNotation
