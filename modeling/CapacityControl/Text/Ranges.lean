/-
  CapacityControl.Text.Ranges
  ───────────────────────────
  CHARACTER CLASSES AS TABLES.  A class of characters is a list of closed ranges of
  code points in ascending order; a character belongs to the class if one of the
  ranges holds its code point.
-/

namespace CapacityControl.Text

/-- Closed ranges of code points, first and last. -/
abbrev Ranges := List (Nat × Nat)

/-- Whether one of the ranges holds the character. -/
def Ranges.holds (r : Ranges) (c : Char) : Bool :=
  r.any fun (first, last) => decide (first ≤ c.toNat) && decide (c.toNat ≤ last)

/-- Ranges are ascending and do not touch. -/
def Ranges.sorted : Ranges → Bool
  | (a, b) :: (c, d) :: r => decide (a ≤ b) && decide (b < c) && Ranges.sorted ((c, d) :: r)
  | [(a, b)] => decide (a ≤ b)
  | [] => true

end CapacityControl.Text
