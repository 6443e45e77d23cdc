/-!
# Errors of Notation

Why a text is not rolled. An error keeps the part of the text it is about, as it
was written, and its message says both.
-/

namespace DiceNotation

/-! ## §1 Syntax errors -/

/-- One place where a text leaves the strict grammar. -/
structure SyntaxError where
  /-- The byte offset where the offending text starts. -/
  start : Nat
  /-- The byte offset after the offending text. -/
  stop : Nat
  /-- What was found and what was expected instead. -/
  message : String
deriving DecidableEq

/-- A syntax error reads `MESSAGE at START..STOP`. -/
def SyntaxError.text (e : SyntaxError) : String :=
  e.message ++ " at " ++ toString e.start ++ ".." ++ toString e.stop

/-! ## §2 All errors -/

/-- The reasons for which notation is refused. -/
inductive NotationError where
  /-- The text has no term; holds the text in normal form. -/
  | noTerm (text : String)
  /-- A count is out of range; holds the count. -/
  | count (text : String)
  /-- A number of sides is out of range; holds the number. -/
  | sides (text : String)
  /-- A modifier is out of range; holds the modifier with its sign. -/
  | modifier (text : String)
  /-- The text is not in the strict grammar; holds it in normal form. -/
  | malformed (text : String) (errors : List SyntaxError)
deriving DecidableEq

/-- The message of an error. -/
def NotationError.message : NotationError → String
  | noTerm text => "invalid dice expression: " ++ text
  | count text => "invalid dice count: " ++ text
  | sides text => "invalid dice sides: " ++ text
  | modifier text => "invalid dice modifier: " ++ text
  | malformed text errors =>
    "invalid dice expression syntax in " ++ text ++ ": " ++
      "; ".intercalate (errors.map SyntaxError.text)

end DiceNotation
