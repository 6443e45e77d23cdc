/-!
# White Space

The characters with the Unicode property `White_Space`, and the two ways the
library drops them: everywhere in a text, or at its end only.
-/

namespace DiceNotation.Text

/-! ## §1 The property -/

/-- The ranges of the property `White_Space`, first and last code point included:
25 characters in all. -/
def whiteSpaceRanges : List (Nat × Nat) :=
  [(0x0009, 0x000D), (0x0020, 0x0020), (0x0085, 0x0085), (0x00A0, 0x00A0), (0x1680, 0x1680),
   (0x2000, 0x200A), (0x2028, 0x2029), (0x202F, 0x202F), (0x205F, 0x205F), (0x3000, 0x3000)]

/-- A character is white space iff its code point lies in one of the ranges. -/
def isWhiteSpace (c : Char) : Bool :=
  whiteSpaceRanges.any fun (first, last) => first ≤ c.toNat && c.toNat ≤ last

/-! ## §2 Dropping it -/

/-- The characters that are not white space, in order. -/
def dropWhiteSpace (cs : List Char) : List Char :=
  cs.filter fun c => !isWhiteSpace c

/-- A text without the white space at its end. -/
def trimEnd (text : String) : String :=
  String.ofList (text.toList.reverse.dropWhile isWhiteSpace).reverse

end DiceNotation.Text
