/-
  CapacityControl.Text.Blank
  ──────────────────────────
  BLANK CHARACTERS: the Unicode property `White_Space`, which separates the words of
  a rule.
-/
import CapacityControl.Text.Ranges

namespace CapacityControl.Text

/-- The code points with the property `White_Space`. -/
def blankRanges : Ranges := [
  (9, 13), (32, 32), (133, 133), (160, 160), (5760, 5760), (8192, 8202), (8232, 8233),
  (8239, 8239), (8287, 8287), (12288, 12288)]

/-- Whether the character is white space. -/
def isBlank (c : Char) : Bool := blankRanges.holds c

example : blankRanges.sorted = true := by decide

example : (blankRanges.map fun (a, b) => b - a + 1).sum = 25 := by decide

/-- A text without the blanks at its two ends. -/
def trimBlanks (cs : List Char) : List Char :=
  ((cs.dropWhile isBlank).reverse.dropWhile isBlank).reverse

end CapacityControl.Text
