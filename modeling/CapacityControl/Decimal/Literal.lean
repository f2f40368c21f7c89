/-
  CapacityControl.Decimal.Literal
  ───────────────────────────────
  NUMBERS AS THEY ARE WRITTEN.  A numeral is an optional sign followed by digits
  with at most one point and an optional exponent, or by one of the words `inf`,
  `infinity`, `nan` in any letter case.  `Literal.read?` reads a whole text as one
  numeral, exactly: what a numeral is worth in a given arithmetic is decided by
  that arithmetic (`Scalar.ofLiteral`), so nothing is rounded here.
-/

namespace CapacityControl

/-! ## §1. Numerals. -/

/-- What a numeral says: `±digits · 10^exponent`, an infinity, or no number at all. -/
inductive Literal where
  | decimal (negative : Bool) (digits : Nat) (exponent : Int)
  | infinite (negative : Bool)
  | notANumber
  deriving DecidableEq, Repr

namespace Literal

/-- The value of a run of decimal digits, most significant first. -/
def digitsValue (ds : List Char) : Nat :=
  ds.foldl (fun n d => 10 * n + (d.toNat - '0'.toNat)) 0

/-- One letter in lower case; other characters are left alone. -/
def lower (c : Char) : Char := c.toLower

/-! ## §2. Reading. -/

/-- The value of an exponent: an optional sign and at least one digit, nothing else. -/
def exponent? : List Char → Option Int
  | '+' :: ds => unsigned ds
  | '-' :: ds => (unsigned ds).map (- ·)
  | ds => unsigned ds
where
  /-- At least one digit and nothing else. -/
  unsigned (ds : List Char) : Option Int :=
    if ds.isEmpty || !ds.all Char.isDigit then none else some (digitsValue ds)

/-- Reads `digits[.digits][e[±]digits]`, with a digit on at least one side of the point. -/
def unsigned? (negative : Bool) (cs : List Char) : Option Literal :=
  let whole := cs.takeWhile Char.isDigit
  let rest := cs.dropWhile Char.isDigit
  let (places, rest) := match rest with
    | '.' :: r => (r.takeWhile Char.isDigit, r.dropWhile Char.isDigit)
    | r => ([], r)
  if whole.isEmpty && places.isEmpty then none
  else
    let value (e : Int) := decimal negative (digitsValue (whole ++ places)) (e - places.length)
    match rest with
    | [] => some (value 0)
    | c :: e => if lower c = 'e' then (exponent? e).map value else none

/-- Reads an unsigned numeral or one of the words. -/
def magnitude? (negative : Bool) (cs : List Char) : Option Literal :=
  let word := String.ofList (cs.map lower)
  if word = "inf" || word = "infinity" then some (infinite negative)
  else if word = "nan" then some notANumber
  else unsigned? negative cs

/-- Reads a whole text as one numeral; `none` if it is not one. -/
def read? (text : String) : Option Literal :=
  match text.toList with
  | '+' :: cs => magnitude? false cs
  | '-' :: cs => magnitude? true cs
  | cs => magnitude? false cs

end Literal

end CapacityControl
