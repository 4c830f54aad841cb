import Offside.Text.Ranges

/-!
# Blank characters

The characters with the property White_Space: the tabs, line ends, spaces and separators of every
script. A zero-width space is not one of them.

* `isBlank`: membership; `dropBlankEnd`: a text without the blanks at its end.
-/

namespace Offside.Text

/-- The ranges of the blank characters. -/
def blankRanges : List (Nat × Nat) := [
  (0x9, 0xd), (0x20, 0x20), (0x85, 0x85), (0xa0, 0xa0), (0x1680, 0x1680), (0x2000, 0x200a),
  (0x2028, 0x2029), (0x202f, 0x202f), (0x205f, 0x205f), (0x3000, 0x3000)
]

/-- Whether a character is blank. -/
def isBlank (c : Char) : Bool := inRanges blankRanges c.toNat

/-- A character sequence without the blanks at its end. -/
def dropBlankEnd (text : List Char) : List Char := (text.reverse.dropWhile isBlank).reverse

end Offside.Text
