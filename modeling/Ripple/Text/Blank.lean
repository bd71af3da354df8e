import Ripple.Text.CodeRange

/-!
# White space

The Unicode property `White_Space`, and the removal of white space around a text.
-/

namespace Ripple.Text

/-- The white space beyond ASCII. -/
def blankRanges : List CodeRange :=
  [(0x85, 0x85), (0xA0, 0xA0), (0x1680, 0x1680), (0x2000, 0x200A), (0x2028, 0x2029),
   (0x202F, 0x202F), (0x205F, 0x205F), (0x3000, 0x3000)]

/-- Whether a character is white space. -/
def isBlank (c : Char) : Bool :=
  if c.toNat < 128 then c = ' ' || isBetween '\t' '\r' c
  else CodeRange.covers blankRanges c.toNat

/-- Drops the white space at both ends. -/
def trim (cs : List Char) : List Char :=
  ((cs.dropWhile isBlank).reverse.dropWhile isBlank).reverse

end Ripple.Text
