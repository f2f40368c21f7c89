/-
  CapacityControl.Scalar.Extended
  ───────────────────────────────
  EXACT ARITHMETIC: the rationals, two infinities and one undefined value.
  Operations on rationals are those of `Rat`, so a law of the library that is
  proved here is free of rounding.  What has no value (`∞ - ∞`, `0 · ∞`, `0 / 0`)
  is undefined, and a non-zero number divided by zero is infinite.
-/
import CapacityControl.Scalar

namespace CapacityControl

/-! ## §1. Values. -/

/-- A rational, an infinity, or the undefined value. -/
inductive Extended where
  | finite (q : Rat)
  | infinite (negative : Bool)
  | nan
  deriving DecidableEq

namespace Extended

/-! ## §2. Operations. -/

/-- Whether a rational is below zero. -/
def isNegative (q : Rat) : Bool := decide (q < 0)

/-- The sum; of opposite infinities there is none. -/
def add : Extended → Extended → Extended
  | finite a, finite b => finite (a + b)
  | finite _, infinite s => infinite s
  | infinite s, finite _ => infinite s
  | infinite s, infinite t => if s = t then infinite s else nan
  | _, _ => nan

/-- The opposite value. -/
def neg : Extended → Extended
  | finite a => finite (-a)
  | infinite s => infinite (!s)
  | nan => nan

/-- The difference. -/
def sub (a b : Extended) : Extended := add a (neg b)

/-- The product; of zero and an infinity there is none. -/
def mul : Extended → Extended → Extended
  | finite a, finite b => finite (a * b)
  | finite a, infinite s => if a = 0 then nan else infinite (s != isNegative a)
  | infinite s, finite b => if b = 0 then nan else infinite (s != isNegative b)
  | infinite s, infinite t => infinite (s != t)
  | _, _ => nan

/-- The quotient; zero by zero and infinite by infinite have none. -/
def div : Extended → Extended → Extended
  | finite a, finite b =>
    if b = 0 then (if a = 0 then nan else infinite (isNegative a)) else finite (a / b)
  | finite _, infinite _ => finite 0
  | infinite s, finite b => infinite (s != isNegative b)
  | _, _ => nan

/-! ## §3. Comparisons. -/

/-- Strictly below; false as soon as one side is undefined. -/
def lt : Extended → Extended → Bool
  | finite a, finite b => decide (a < b)
  | finite _, infinite s => !s
  | infinite s, finite _ => s
  | infinite s, infinite t => s && !t
  | _, _ => false

/-- Numerically equal; the undefined value equals nothing. -/
def beq : Extended → Extended → Bool
  | finite a, finite b => decide (a = b)
  | infinite s, infinite t => s == t
  | _, _ => false

/-- Below or equal. -/
def le (a b : Extended) : Bool := lt a b || beq a b

/-- The order of sorting: numeric, with the undefined value last. -/
def sortsBefore : Extended → Extended → Bool
  | _, nan => true
  | nan, _ => false
  | a, b => le a b

/-! ## §4. Conversions. -/

/-- The rational `±digits · 10^exponent`. -/
def ofDecimal (negative : Bool) (digits : Nat) (exponent : Int) : Rat :=
  let magnitude : Rat := (digits : Rat) * (10 : Rat) ^ exponent
  if negative then -magnitude else magnitude

/-- The greatest count not above the value. -/
def floor : Extended → Nat
  | finite q => q.floor.toNat
  | _ => 0

/-- The least count not below the value. -/
def ceil : Extended → Nat
  | finite q => q.ceil.toNat
  | _ => 0

/-- The value of a numeral. -/
def ofLiteral : Literal → Extended
  | .decimal negative digits exponent => finite (ofDecimal negative digits exponent)
  | .infinite negative => infinite negative
  | .notANumber => nan

/-- A fraction in lowest terms, the denominator one left out. -/
def text : Extended → String
  | finite q => if q.den = 1 then toString q.num else toString q.num ++ "/" ++ toString q.den
  | infinite negative => if negative then "-inf" else "inf"
  | nan => "NaN"

instance : Scalar Extended where
  add := add
  sub := sub
  mul := mul
  div := div
  neg := neg
  lt a b := lt a b = true
  le a b := le a b = true
  beq := beq
  ofScientific digits isNegative places :=
    finite (ofDecimal false digits (if isNegative then -(places : Int) else places))
  decLt a b := inferInstanceAs (Decidable (lt a b = true))
  decLe a b := inferInstanceAs (Decidable (le a b = true))
  ofNat n := finite n
  nan := nan
  isFinite
    | finite _ => true
    | _ => false
  floor := floor
  ceil := ceil
  sortsBefore := sortsBefore
  ofLiteral := ofLiteral
  text := text

/-! ## §5. Laws of the finite values. -/

theorem finite_add (a b : Rat) : finite a + finite b = finite (a + b) := rfl

theorem finite_neg (a : Rat) : -finite a = finite (-a) := rfl

theorem finite_sub (a b : Rat) : finite a - finite b = finite (a - b) := by
  rw [Rat.sub_eq_add_neg]
  rfl

theorem finite_mul (a b : Rat) : finite a * finite b = finite (a * b) := rfl

theorem finite_div (a b : Rat) (h : b ≠ 0) : finite a / finite b = finite (a / b) := by
  show div (finite a) (finite b) = finite (a / b)
  simp [div, h]

theorem finite_lt (a b : Rat) : finite a < finite b ↔ a < b := by
  show decide (a < b) = true ↔ a < b
  simp

theorem finite_le (a b : Rat) : finite a ≤ finite b ↔ a ≤ b := by
  show (decide (a < b) || decide (a = b)) = true ↔ a ≤ b
  simp [Rat.le_iff_lt_or_eq]

theorem finite_beq (a b : Rat) : (finite a == finite b) = decide (a = b) := rfl

/-- The rationals are the values that are neither infinite nor undefined. -/
theorem isFinite_iff (x : Extended) : Scalar.isFinite x = true ↔ ∃ q, x = finite q := by
  cases x <;> simp [Scalar.isFinite]

end Extended

end CapacityControl
