import DiceNotation.Text.WhiteSpace
import DiceNotation.Text.Lowercase

/-!
# Normal Texts

Notation is read from the *normal form* of a text: without white space, in
lowercase. So `2 D6 + 3` and `2d6+3` are one expression.
-/

namespace DiceNotation.Text

/-- The normal form of a sequence of characters: white space goes first, then
every character that is left is lowercased by itself. -/
def normalizeChars (cs : List Char) : List Char :=
  (dropWhiteSpace cs).flatMap lowercase

/-- The normal form of a text. -/
def normalize (text : String) : String :=
  String.ofList (normalizeChars text.toList)

/-- Normal forms of parts follow one another in the normal form of the whole. -/
theorem normalizeChars_append (a b : List Char) :
    normalizeChars (a ++ b) = normalizeChars a ++ normalizeChars b := by
  simp only [normalizeChars, dropWhiteSpace, List.filter_append, List.flatMap_append]

end DiceNotation.Text
