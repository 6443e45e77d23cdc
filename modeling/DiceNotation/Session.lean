import DiceNotation.Roller.Source
import DiceNotation.Rolling

/-!
# Sessions

One source serves a sequence of calls. Copies of it can be put aside and taken up
again. A call for which the source runs out takes what is left of it, and the
session goes on; a call that is refused takes nothing.
-/

namespace DiceNotation

/-! ## §1 Calls and replies -/

/-- What a session can be asked for. -/
inductive Call where
  | die (sides : Nat)
  | roll (term : Term)
  | evaluate (terms : List Term)
  | rollText (grammar : Grammar) (expression : String)
  /-- Whether a script has a face left. -/
  | canRoll
  /-- Another face for a constant source. -/
  | setFace (face : Nat)
  /-- Put a copy of the source aside. -/
  | save
  /-- Take up the copy that was put aside last. -/
  | restore
deriving DecidableEq

/-- What a session answers. -/
inductive Reply where
  | face (face : Nat)
  | outcome (outcome : Outcome)
  | tally (tally : Tally)
  | refused (error : NotationError)
  /-- The source has no face left. -/
  | ranOut
  | canRoll (answer : Bool)
  /-- The face that a constant source shows from now on. -/
  | faceSet (face : Nat)
  /-- The number of copies that are put aside now. -/
  | saved (copies : Nat)
  /-- The call is not one for this source, or there is no copy to take up. -/
  | impossible
deriving DecidableEq

/-! ## §2 Steps -/

/-- The source in use and the copies that were put aside, the last one first. -/
structure Session where
  source : Source
  copies : List Source := []
deriving DecidableEq

namespace Session

/-- What one call leads to: a reply, its journal, and the session after it. -/
structure Step where
  reply : Reply
  events : List Event
  after : Session

/-- The step of a call that yields a value or runs out. -/
def stepOf {α : Type} (session : Session) (reply : α → Reply) (run : Run Source α) : Step where
  reply := (run.answer.map reply).getD .ranOut
  events := run.events
  after := { session with source := run.state }

/-- Serves one call. -/
def step (session : Session) : Call → Step
  | .die sides =>
    let (face, source) := Roller.ofSource.die sides session.source
    session.stepOf .face ⟨face, [], source⟩
  | .roll term =>
    let (outcome, source) := Roller.ofSource.roll term session.source
    session.stepOf .outcome ⟨outcome, [], source⟩
  | .evaluate terms =>
    session.stepOf .tally (Roller.ofSource.evaluate terms session.source)
  | .rollText grammar expression =>
    session.stepOf
      (fun | .ok tally => .tally tally | .error error => .refused error)
      (Roller.ofSource.rollText grammar expression session.source)
  | .canRoll =>
    match session.source with
    | .scripted script =>
      let (answer, script) := script.canRoll
      ⟨.canRoll answer, [], { session with source := .scripted script }⟩
    | _ => ⟨.impossible, [], session⟩
  | .setFace face =>
    match session.source with
    | .constant _ => ⟨.faceSet face, [], { session with source := .constant face }⟩
    | _ => ⟨.impossible, [], session⟩
  | .save =>
    let copies := session.source :: session.copies
    ⟨.saved copies.length, [], { session with copies }⟩
  | .restore =>
    match session.copies with
    | source :: copies => ⟨.saved copies.length, [], { source, copies }⟩
    | [] => ⟨.impossible, [], session⟩

/-- Serves calls in order. -/
def run (session : Session) : List Call → List Step
  | [] => []
  | call :: calls =>
    let step := session.step call
    step :: step.after.run calls

end Session

end DiceNotation
