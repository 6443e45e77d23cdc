import DiceNotation.Roller.Generator
import DiceNotation.Roller.Script

/-!
# Sources

A source is any of the rollers together with its state.
-/

namespace DiceNotation

/-- A roller of one of the four kinds, in some state. -/
inductive Source where
  /-- Highest faces. -/
  | highest
  /-- One face for all dice. -/
  | constant (face : Nat)
  /-- The faces of a script. -/
  | scripted (script : Script)
  /-- The faces of a generator. -/
  | seeded (generator : Generator)
deriving DecidableEq

/-- Shows the faces of a source. -/
def Roller.ofSource : Roller Source where
  die sides
    | .highest =>
      let (face, _) := Roller.highest.die sides ()
      (face, .highest)
    | .constant face =>
      let (shown, face) := Roller.constant.die sides face
      (shown, .constant face)
    | .scripted script =>
      let (face, script) := Roller.scripted.die sides script
      (face, .scripted script)
    | .seeded generator =>
      let (face, generator) := Roller.seeded.die sides generator
      (face, .seeded generator)

end DiceNotation
