import DiceNotation.Grammar.Diagnosis
import DiceNotation.Grammar.Search
import DiceNotation.Text.Normal

/-!
# Expressions

An expression is a text in dice notation. Its normal form is read by one of two
grammars, and what was read is checked term by term.
-/

namespace DiceNotation

/-- How an expression is read. -/
inductive Grammar where
  /-- Every term of the text counts, and anything else is ignored. -/
  | lenient
  /-- Only terms with an optional `+` between them are accepted. -/
  | strict
deriving DecidableEq

namespace Grammar

/-- The spellings of a text in normal form. -/
def spellings (grammar : Grammar) (text : String) : Except NotationError (List Spelling) :=
  match grammar with
  | lenient =>
    match Spelling.findAll text.toList with
    | [] => .error (.noTerm text)
    | found => .ok found
  | strict =>
    match Spelling.readSum? text.toList with
    | some found => .ok found
    | none => .error (.malformed text [(Candidate.ofSum text.toList).toSyntaxError])

/-- The terms of an expression, or why it has none: the error of its grammar, else that of
the first term out of range. -/
def parse (grammar : Grammar) (expression : String) : Except NotationError (List Term) := do
  let found ← grammar.spellings (Text.normalize expression)
  found.mapM Spelling.toTerm

/-- Whether an expression can be rolled. -/
def accepts (grammar : Grammar) (expression : String) : Bool :=
  match grammar.parse expression with
  | .ok _ => true
  | .error _ => false

end Grammar

end DiceNotation
