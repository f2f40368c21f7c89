/-
  CapacityControl.Decimal.Layout
  ──────────────────────────────
  HOW DIGITS ARE LAID OUT.  A `Layout` says which decimals are written with a point
  in place and which with an exponent, whether a whole number keeps a `.0`, and how
  the values that are no numbers are spelled.
-/
import CapacityControl.Decimal.Shortest

namespace CapacityControl.Decimal

/-! ## §1. Layouts. -/

/-- The conventions of one written form. -/
structure Layout where
  /-- Which of two equally near decimals is written. -/
  tie : Tie
  /-- Whether a number whose leading digit stands for `10^e` is written without exponent. -/
  positional : Int → Bool
  /-- Whether a whole number ends in `.0`. -/
  keepsPoint : Bool
  /-- The spelling of infinity, without sign. -/
  infinity : String
  /-- The spelling of the undefined value. -/
  undefinedText : String

/-- **The layout of messages and logs**: never an exponent, whole numbers without a point. -/
def Layout.plain : Layout := ⟨.up, fun _ => true, false, "inf", "NaN"⟩

/-- **The layout of configuration files**: always recognisable as a fraction, with an
exponent outside `10^-5 … 10^15`. -/
def Layout.configuration : Layout :=
  ⟨.even, fun e => decide (-5 ≤ e) && decide (e ≤ 15), true, ".inf", ".nan"⟩

/-! ## §2. Writing. -/

/-- `n` zeros. -/
def zeros (n : Nat) : List Char := List.replicate n '0'

/-- The decimal digits of a count. -/
def digitChars (n : Nat) : List Char := Nat.toDigits 10 n

/-- The text of a sign. -/
def signText (negative : Bool) : String := if negative then "-" else ""

/-- Digits with the point in its place. -/
def Layout.point (l : Layout) (d : Digits) : String :=
  let ds := digitChars d.digits
  let whole (cs : List Char) := if l.keepsPoint then cs ++ ['.', '0'] else cs
  String.ofList <|
    if 0 ≤ d.exponent then whole (ds ++ zeros d.exponent.toNat)
    else
      let places := (-d.exponent).toNat
      if places < ds.length then
        ds.take (ds.length - places) ++ '.' :: ds.drop (ds.length - places)
      else '0' :: '.' :: (zeros (places - ds.length) ++ ds)

/-- Digits as one digit, the others behind a point, and a power of ten. -/
def scientific (d : Digits) : String :=
  let ds := digitChars d.digits
  let power := d.exponent + (ds.length - 1 : Nat)
  let mantissa := match ds with
    | [] => []
    | [c] => [c]
    | c :: cs => c :: '.' :: cs
  String.ofList mantissa ++ "e" ++ signText (decide (power < 0)) ++
    String.ofList (digitChars power.natAbs)

/-- The text of a positive decimal. -/
def Layout.digits (l : Layout) (d : Digits) : String :=
  let lead := d.exponent + ((digitChars d.digits).length - 1 : Nat)
  if l.positional lead then l.point d else scientific d

/-- The text of zero. -/
def Layout.zero (l : Layout) : String := if l.keepsPoint then "0.0" else "0"

end CapacityControl.Decimal
