/-
  CapacityControl.Scalar.Binary64
  ───────────────────────────────
  BINARY FLOATING POINT: the arithmetic in which the control loop runs.  Operations
  are the machine's; this module adds the conversions, which are exact where a value
  exists and correctly rounded elsewhere.  There is one undefined value, and it sorts
  after every number.
-/
import CapacityControl.Scalar
import CapacityControl.Decimal.Layout

namespace CapacityControl.Binary64

open Decimal

/-! ## §1. Anatomy. -/

/-- The sign of a value, also of zero. -/
def isNegative (x : Float) : Bool := decide (Nat.pow 2 63 ≤ x.toBits.toNat)

/-- The magnitude of a finite value that is not zero. -/
def magnitude (x : Float) : Magnitude :=
  let bits := x.toBits.toNat
  let fraction : Nat := bits % Nat.pow 2 52
  let biased : Nat := bits / Nat.pow 2 52 % Nat.pow 2 11
  if biased = 0 then ⟨fraction, -1074, false⟩
  else
    ⟨Nat.pow 2 52 + fraction, (biased : Int) - 1075,
      decide (fraction = 0) && decide (1 < biased)⟩

/-- The key of the total order: numbers by value, `-0` before `0`, the undefined value last. -/
def orderKey (x : Float) : Nat :=
  let bits := x.toBits.toNat
  if bits < Nat.pow 2 63 then Nat.pow 2 63 + bits else Nat.pow 2 64 - 1 - bits

/-! ## §2. Conversions. -/

/-- The count nearest to which the value is rounded; counts are below `2^64`. -/
def ofCount (n : Nat) : Float :=
  if n < Nat.pow 2 64 then n.toUInt64.toFloat else Float.ofScientific n false 0

/-- `±digits · 10^exponent`, correctly rounded.  Beyond the range of the format the value
is infinite or zero, whatever the digits. -/
def ofDecimal (negative : Bool) (digits : Nat) (exponent : Int) : Float :=
  let lead := exponent + ((digitChars digits).length : Int)
  let size : Float :=
    if digits = 0 then 0.0
    else if 310 < lead then 1.0 / 0.0
    else if lead < -330 then 0.0
    else Float.ofScientific digits (decide (exponent < 0)) exponent.natAbs
  if negative then -size else size

/-- The value of a numeral. -/
def ofLiteral : Literal → Float
  | .decimal negative digits exponent => ofDecimal negative digits exponent
  | .infinite negative => if negative then -1.0 / 0.0 else 1.0 / 0.0
  | .notANumber => 0.0 / 0.0

/-- The text of a value in a layout: the fewest digits that read back. -/
def written (l : Layout) (x : Float) : String :=
  if x.isNaN then l.undefinedText
  else signText (isNegative x) ++
    (if x.isInf then l.infinity
     else if x == 0.0 then l.zero
     else l.digits ((magnitude x).shortest l.tie))

instance : Scalar Float where
  decLt a b := inferInstanceAs (Decidable (a < b))
  decLe a b := inferInstanceAs (Decidable (a ≤ b))
  ofNat := ofCount
  nan := 0.0 / 0.0
  isFinite := Float.isFinite
  floor x := x.floor.toUInt64.toNat
  ceil x := x.ceil.toUInt64.toNat
  sortsBefore a b := decide (orderKey a ≤ orderKey b)
  ofLiteral := ofLiteral
  text := written Layout.plain

end CapacityControl.Binary64
