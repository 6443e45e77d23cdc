import DiceNotation.Grammar
import DiceNotation.Outcome

/-!
# Journal

What the library reports while it works: one event for every expression that is
read, one for every term that is rolled, and one for every tally.
-/

namespace DiceNotation

/-- How much detail an event belongs to. -/
inductive Level where
  /-- What happened to an expression. -/
  | debug
  /-- What happened to a single term of it. -/
  | trace
deriving DecidableEq

def Level.text : Level → String
  | debug => "DEBUG"
  | trace => "TRACE"

/-- One entry of the journal. -/
inductive Event where
  /-- An expression was read; holds its normal form and the number of its terms. -/
  | parsed (text : String) (terms : Nat)
  /-- A term of an expression was out of range. -/
  | rejected (text : String) (error : NotationError)
  /-- An expression had no terms. -/
  | noTerms (text : String)
  /-- An expression was not in the strict grammar; holds the number of its errors. -/
  | malformed (text : String) (errors : Nat)
  | rolled (outcome : Outcome)
  | evaluated (expression : String) (total : Score)
deriving DecidableEq

namespace Event

/-- The level of an event: the single terms of an expression are the finer detail. -/
def level : Event → Level
  | rolled _ => .trace
  | _ => .debug

/-- What an event says. -/
def message : Event → String
  | parsed .. => "parsed dice expression"
  | rejected .. => "rejected dice expression"
  | noTerms _ => "no dice terms found in expression"
  | malformed .. => "expression has syntax errors"
  | rolled _ => "rolled dice term"
  | evaluated .. => "evaluated dice expression"

/-- The particulars of an event, each with its name. -/
def fields : Event → List (String × String)
  | parsed text terms => [("expression", text), ("terms", toString terms)]
  | rejected text error => [("expression", text), ("err", error.message)]
  | noTerms text => [("expression", text)]
  | malformed text errors => [("expression", text), ("errors", toString errors)]
  | rolled outcome => [("outcome", outcome.text)]
  | evaluated expression total => [("expression", expression), ("total", Score.text total)]

/-- The event for a text in normal form that was read. -/
def ofReading (text : String) : Except NotationError (List Term) → Event
  | .ok terms => parsed text terms.length
  | .error (.noTerm _) => noTerms text
  | .error (.malformed _ errors) => malformed text errors.length
  | .error error => rejected text error

end Event

/-- The event for reading an expression. -/
def Grammar.event (grammar : Grammar) (expression : String) : Event :=
  .ofReading (Text.normalize expression) (grammar.parse expression)

end DiceNotation
