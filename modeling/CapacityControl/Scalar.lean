/-
  CapacityControl.Scalar
  ──────────────────────
  THE ARITHMETIC THE LIBRARY COMPUTES IN.  Every quantity of the control loop
  (shares, utilisations, memberships, times) is a value of a type `α` with a
  `Scalar` structure, and every rule of the library is written once, over any such
  type.  Two arithmetics are provided: binary floating point
  (`Scalar.Binary64`), in which the loop runs, and the rationals extended by two
  infinities and one undefined value (`Scalar.Extended`), in which the laws of the
  loop are exact.
-/
import CapacityControl.Decimal.Literal

namespace CapacityControl

/-! ## §1. The structure. -/

/-- The operations of an arithmetic with an undefined value and (possibly) infinities.
Comparisons are numeric: the undefined value compares false with everything, itself
included. -/
class Scalar (α : Type) extends
    Add α, Sub α, Mul α, Div α, Neg α, LT α, LE α, BEq α, OfScientific α where
  /-- Strict comparison is decided. -/
  decLt : (a b : α) → Decidable (a < b)
  /-- Weak comparison is decided. -/
  decLe : (a b : α) → Decidable (a ≤ b)
  /-- The count `n` as a quantity. -/
  ofNat : Nat → α
  /-- The undefined value. -/
  nan : α
  /-- Whether the value is a number, neither infinite nor undefined. -/
  isFinite : α → Bool
  /-- The greatest count that is not above the value; zero for values below one. -/
  floor : α → Nat
  /-- The least count that is not below the value; zero for values up to zero. -/
  ceil : α → Nat
  /-- The total order used for sorting: numeric, with the undefined value last. -/
  sortsBefore : α → α → Bool
  /-- The value of a numeral. -/
  ofLiteral : Literal → α
  /-- The value in decimal digits, as messages and logs show it. -/
  text : α → String

namespace Scalar

variable {α : Type} [Scalar α]

instance (a b : α) : Decidable (a < b) := decLt a b

instance (a b : α) : Decidable (a ≤ b) := decLe a b

/-! ## §2. Derived operations. -/

/-- Only the undefined value differs from itself. -/
def isNaN (x : α) : Bool := !(x == x)

/-- The smaller operand; of two equal ones the first, and the defined one if the other
is undefined. -/
def min (a b : α) : α := if isNaN a then b else if b < a then b else a

/-- The larger operand; of two equal ones the first, and the defined one if the other
is undefined. -/
def max (a b : α) : α := if isNaN a then b else if a < b then b else a

/-- The value without its sign. -/
def abs (x : α) : α := if x < 0.0 then -x else x

/-- The value limited to `[0, 1]`; the undefined value stays undefined. -/
def clampUnit (x : α) : α := if x < 0.0 then 0.0 else if 1.0 < x then 1.0 else x

/-- Whether `x` lies in `[0, 1]`. -/
def inUnit (x : α) : Bool := decide (0.0 ≤ x) && decide (x ≤ 1.0)

/-! ## §3. Equality up to tolerance. -/

/-- How far apart two quantities may be and still count as equal: by `abs`, or by the
fraction `rel` of the larger magnitude. -/
structure Tolerance (α : Type) where
  abs : α
  rel : α

/-- The tolerances of the control loop. -/
def Tolerance.standard : Tolerance α := ⟨1e-12, 1e-9⟩

/-- Whether `a` and `b` are equal up to `tol`. -/
def nearlyEqual (tol : Tolerance α) (a b : α) : Bool :=
  let gap := abs (a - b)
  decide (gap ≤ tol.abs) || decide (gap ≤ tol.rel * max (abs a) (abs b))

end Scalar

end CapacityControl
