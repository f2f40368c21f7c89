/-
  CapacityControl.Proofs.Exact.Rescaling
  ──────────────────────────────────────
  OTHER SCALES.  What is computed from observations should not depend on the scale on which
  they are written down.  A rescaling maps values and the differences of values, and the laws
  in `Rescaling` say which operations and comparisons do not notice it; a change of unit is a
  rescaling that keeps zero where it is (`UnitChange`).  In exact arithmetic multiplication by
  a positive rational is one, also of what is infinite or undefined (`UnitChange.times`), and
  followed by a shift it is a rescaling that moves zero (`Rescaling.affine`).
-/
import CapacityControl.Proofs.Exact.Arithmetic

namespace CapacityControl

/-! ## §1. Rescalings. -/

/-- **A rescaling**: what becomes of values, and of their differences. -/
structure Rescaling (α : Type) [Scalar α] where
  value : α → α
  span : α → α
  value_lt (x y : α) : value x < value y ↔ x < y
  value_le (x y : α) : value x ≤ value y ↔ x ≤ y
  sortsBefore_value (x y : α) :
    Scalar.sortsBefore (value x) (value y) = Scalar.sortsBefore x y
  value_sub (x y : α) : value x - value y = span (x - y)
  value_add (x d : α) : value x + span d = value (x + d)
  span_add (d e : α) : span d + span e = span (d + e)
  mul_span (c d : α) : c * span d = span (c * d)
  span_div (d c : α) : span d / c = span (d / c)

/-- **A change of unit** does not move zero, so that values are their differences from it.
Quotients of values stay what they are, and so does all that is no number. -/
structure UnitChange (α : Type) [Scalar α] extends Rescaling α where
  span_eq (x : α) : span x = value x
  value_zero : value 0.0 = 0.0
  value_div (x y : α) : value x / value y = x / y
  isFinite_value (x : α) : Scalar.isFinite (value x) = Scalar.isFinite x
  value_beq_zero (x : α) : (value x == 0.0) = (x == 0.0)
  value_eq_self {x : α} (h : Scalar.isFinite x = false) : value x = x

/-- The same unit. -/
def UnitChange.same (α : Type) [Scalar α] : UnitChange α where
  value x := x
  span x := x
  value_lt _ _ := Iff.rfl
  value_le _ _ := Iff.rfl
  sortsBefore_value _ _ := rfl
  value_sub _ _ := rfl
  value_add _ _ := rfl
  span_add _ _ := rfl
  mul_span _ _ := rfl
  span_div _ _ := rfl
  span_eq _ := rfl
  value_zero := rfl
  value_div _ _ := rfl
  isFinite_value _ := rfl
  value_beq_zero _ := rfl
  value_eq_self _ := rfl

/-- One rescaling after the other. -/
def Rescaling.andThen {α : Type} [Scalar α] (u v : Rescaling α) : Rescaling α where
  value x := v.value (u.value x)
  span d := v.span (u.span d)
  value_lt x y := (v.value_lt _ _).trans (u.value_lt x y)
  value_le x y := (v.value_le _ _).trans (u.value_le x y)
  sortsBefore_value x y := (v.sortsBefore_value _ _).trans (u.sortsBefore_value x y)
  value_sub x y := by rw [v.value_sub, u.value_sub]
  value_add x d := by rw [v.value_add, u.value_add]
  span_add d e := by rw [v.span_add, u.span_add]
  mul_span c d := by rw [v.mul_span, u.mul_span]
  span_div d c := by rw [v.span_div, u.span_div]

/-! ## §2. Multiplication by a positive rational. -/

namespace Extended

/-- The value with its rational multiplied; what is no number stays as it is. -/
def stretch (k : Rat) : Extended → Extended
  | finite q => finite (k * q)
  | infinite negative => infinite negative
  | nan => nan

section Stretch

variable {k : Rat} (hk : 0 < k)

include hk

/-- A positive factor keeps the sign. -/
theorem isNegative_mul (q : Rat) : isNegative (k * q) = isNegative q :=
  decide_eq_decide.mpr (Rat.mul_neg_iff_of_pos_left hk)

theorem mul_eq_stretch (x : Extended) : finite k * x = stretch k x := by
  cases x with
  | finite q => rfl
  | infinite negative =>
    show mul (finite k) (infinite negative) = infinite negative
    have hsign : isNegative k = false := decide_eq_false hk.not_gt
    simp [mul, hk.ne', hsign]
  | nan => rfl

theorem stretch_lt (x y : Extended) : stretch k x < stretch k y ↔ x < y := by
  cases x with
  | finite a =>
    cases y with
    | finite b =>
      show finite (k * a) < finite (k * b) ↔ finite a < finite b
      rw [finite_lt, finite_lt, mul_lt_mul_iff_right₀ hk]
    | _ => exact Iff.rfl
  | _ =>
    cases y with
    | _ => exact Iff.rfl

theorem stretch_beq (x y : Extended) : (stretch k x == stretch k y) = (x == y) := by
  cases x with
  | finite a =>
    cases y with
    | finite b =>
      show (finite (k * a) == finite (k * b)) = (finite a == finite b)
      rw [finite_beq, finite_beq]
      exact decide_eq_decide.mpr (mul_right_inj' hk.ne')
    | _ => rfl
  | _ =>
    cases y with
    | _ => rfl

theorem stretch_le (x y : Extended) : stretch k x ≤ stretch k y ↔ x ≤ y := by
  show (lt (stretch k x) (stretch k y) || (stretch k x == stretch k y)) = true
    ↔ (lt x y || (x == y)) = true
  rw [Bool.or_eq_true, Bool.or_eq_true, stretch_beq hk]
  exact or_congr_left (stretch_lt hk x y)

theorem stretch_sortsBefore (x y : Extended) :
    Scalar.sortsBefore (stretch k x) (stretch k y) = Scalar.sortsBefore x y := by
  have hle : le (stretch k x) (stretch k y) = le x y := Bool.eq_iff_iff.mpr (stretch_le hk x y)
  cases x with
  | nan =>
    cases y with
    | _ => rfl
  | _ =>
    cases y with
    | nan => rfl
    | _ => exact hle

omit hk in
theorem stretch_add (x y : Extended) : stretch k x + stretch k y = stretch k (x + y) := by
  cases x with
  | finite a =>
    cases y with
    | finite b => exact congrArg finite (mul_add k a b).symm
    | _ => rfl
  | infinite s =>
    cases y with
    | infinite t =>
      show (if s = t then infinite s else nan) = stretch k (if s = t then infinite s else nan)
      split
      · rfl
      · rfl
    | _ => rfl
  | nan =>
    cases y with
    | _ => rfl

omit hk in
theorem stretch_neg (x : Extended) : -stretch k x = stretch k (-x) := by
  cases x with
  | finite a => exact congrArg finite (mul_neg k a).symm
  | _ => rfl

omit hk in
theorem stretch_sub (x y : Extended) : stretch k x - stretch k y = stretch k (x - y) := by
  show stretch k x + -stretch k y = stretch k (x + -y)
  rw [stretch_neg, stretch_add]

theorem mul_stretch (c d : Extended) : c * stretch k d = stretch k (c * d) := by
  cases c with
  | finite a =>
    cases d with
    | finite b => exact congrArg finite (mul_left_comm a k b)
    | infinite t =>
      show (if a = 0 then nan else infinite _) = stretch k (if a = 0 then nan else infinite _)
      split
      · rfl
      · rfl
    | nan => rfl
  | infinite s =>
    cases d with
    | finite b =>
      show (if k * b = 0 then nan else infinite (s != isNegative (k * b)))
        = stretch k (if b = 0 then nan else infinite (s != isNegative b))
      rw [isNegative_mul hk]
      by_cases hb : b = 0
      · rw [if_pos hb, if_pos (by rw [hb, mul_zero])]
        rfl
      · rw [if_neg hb, if_neg (mul_ne_zero hk.ne' hb)]
        rfl
    | _ => rfl
  | nan =>
    cases d with
    | _ => rfl

theorem stretch_div (d c : Extended) : stretch k d / c = stretch k (d / c) := by
  cases d with
  | finite a =>
    cases c with
    | finite b =>
      show (if b = 0 then (if k * a = 0 then nan else infinite (isNegative (k * a)))
          else finite (k * a / b))
        = stretch k (if b = 0 then (if a = 0 then nan else infinite (isNegative a))
          else finite (a / b))
      rw [isNegative_mul hk]
      by_cases hb : b = 0
      · rw [if_pos hb, if_pos hb]
        by_cases ha : a = 0
        · rw [if_pos ha, if_pos (by rw [ha, mul_zero])]
          rfl
        · rw [if_neg ha, if_neg (mul_ne_zero hk.ne' ha)]
          rfl
      · rw [if_neg hb, if_neg hb]
        exact congrArg finite (mul_div_assoc k a b)
    | infinite t => exact congrArg finite (mul_zero k).symm
    | nan => rfl
  | _ =>
    cases c with
    | _ => rfl

/-- The factor cancels, also where there is no quotient. -/
theorem stretch_div_stretch (x y : Extended) : stretch k x / stretch k y = x / y := by
  cases x with
  | finite a =>
    cases y with
    | finite b =>
      show (if k * b = 0 then (if k * a = 0 then nan else infinite (isNegative (k * a)))
          else finite (k * a / (k * b)))
        = if b = 0 then (if a = 0 then nan else infinite (isNegative a)) else finite (a / b)
      have hzero : ∀ q, k * q = 0 ↔ q = 0 := fun q => by simp [hk.ne']
      simp only [hzero, isNegative_mul hk, mul_div_mul_left a b hk.ne']
    | _ => rfl
  | infinite s =>
    cases y with
    | finite b => exact congrArg (fun t => infinite (s != t)) (isNegative_mul hk b)
    | _ => rfl
  | nan =>
    cases y with
    | _ => rfl

end Stretch

end Extended

/-- **Multiplication by a positive rational** changes the unit. -/
def UnitChange.times (k : Rat) (hk : 0 < k) : UnitChange Extended where
  value x := .finite k * x
  span x := .finite k * x
  value_lt x y := by
    rw [Extended.mul_eq_stretch hk, Extended.mul_eq_stretch hk, Extended.stretch_lt hk]
  value_le x y := by
    rw [Extended.mul_eq_stretch hk, Extended.mul_eq_stretch hk, Extended.stretch_le hk]
  sortsBefore_value x y := by
    rw [Extended.mul_eq_stretch hk, Extended.mul_eq_stretch hk, Extended.stretch_sortsBefore hk]
  value_sub x y := by simp only [Extended.mul_eq_stretch hk, Extended.stretch_sub]
  value_add x d := by simp only [Extended.mul_eq_stretch hk, Extended.stretch_add]
  span_add d e := by simp only [Extended.mul_eq_stretch hk, Extended.stretch_add]
  mul_span c d := by
    rw [Extended.mul_eq_stretch hk, Extended.mul_eq_stretch hk, Extended.mul_stretch hk]
  span_div d c := by
    rw [Extended.mul_eq_stretch hk, Extended.mul_eq_stretch hk, Extended.stretch_div hk]
  span_eq _ := rfl
  value_zero := by rw [Extended.zero_eq, Extended.finite_mul, mul_zero]
  value_div x y := by
    rw [Extended.mul_eq_stretch hk, Extended.mul_eq_stretch hk, Extended.stretch_div_stretch hk]
  isFinite_value x := by
    rw [Extended.mul_eq_stretch hk]
    cases x with
    | _ => rfl
  value_beq_zero x := by
    have hzero : Extended.stretch k 0.0 = 0.0 := by
      rw [Extended.zero_eq]
      exact congrArg Extended.finite (mul_zero k)
    rw [Extended.mul_eq_stretch hk]
    exact (congrArg (Extended.stretch k x == ·) hzero.symm).trans (Extended.stretch_beq hk x 0.0)
  value_eq_self {x} h := by
    rw [Extended.mul_eq_stretch hk]
    cases x with
    | finite q => cases h
    | _ => rfl

/-! ## §3. Another origin. -/

namespace Extended

section Shift

variable (b : Rat)

theorem shift_lt (x y : Extended) : x + finite b < y + finite b ↔ x < y := by
  cases x with
  | finite a =>
    cases y with
    | finite c => rw [finite_add, finite_add, finite_lt, finite_lt, add_lt_add_iff_right]
    | _ => exact Iff.rfl
  | _ =>
    cases y with
    | _ => exact Iff.rfl

theorem shift_le (x y : Extended) : x + finite b ≤ y + finite b ↔ x ≤ y := by
  cases x with
  | finite a =>
    cases y with
    | finite c => rw [finite_add, finite_add, finite_le, finite_le, add_le_add_iff_right]
    | _ => exact Iff.rfl
  | _ =>
    cases y with
    | _ => exact Iff.rfl

theorem shift_sortsBefore (x y : Extended) :
    Scalar.sortsBefore (x + finite b) (y + finite b) = Scalar.sortsBefore x y := by
  have hle : le (x + finite b) (y + finite b) = le x y := Bool.eq_iff_iff.mpr (shift_le b x y)
  cases x with
  | nan =>
    cases y with
    | _ => rfl
  | _ =>
    cases y with
    | nan => rfl
    | _ => exact hle

/-- The origin cancels. -/
theorem shift_sub (x y : Extended) : (x + finite b) - (y + finite b) = x - y := by
  cases x with
  | finite a =>
    cases y with
    | finite c =>
      simp only [finite_add, finite_sub]
      exact congrArg finite (add_sub_add_right_eq_sub a c b)
    | _ => rfl
  | _ =>
    cases y with
    | _ => rfl

theorem shift_add (x d : Extended) : (x + finite b) + d = (x + d) + finite b := by
  cases x with
  | finite a =>
    cases d with
    | finite c => exact congrArg finite (add_right_comm a b c)
    | _ => rfl
  | infinite s =>
    cases d with
    | infinite t =>
      show (if s = t then infinite s else nan) = (if s = t then infinite s else nan) + finite b
      split
      · rfl
      · rfl
    | _ => rfl
  | nan =>
    cases d with
    | _ => rfl

end Shift

end Extended

/-- **Another origin** changes no difference. -/
def Rescaling.shift (b : Rat) : Rescaling Extended where
  value x := x + .finite b
  span d := d
  value_lt := Extended.shift_lt b
  value_le := Extended.shift_le b
  sortsBefore_value := Extended.shift_sortsBefore b
  value_sub := Extended.shift_sub b
  value_add := Extended.shift_add b
  span_add _ _ := rfl
  mul_span _ _ := rfl
  span_div _ _ := rfl

/-- **Another scale and another origin.** -/
def Rescaling.affine (a : Rat) (ha : 0 < a) (b : Rat) : Rescaling Extended :=
  (UnitChange.times a ha).toRescaling.andThen (.shift b)

theorem Rescaling.affine_finite {a : Rat} (ha : 0 < a) (b x : Rat) :
    (Rescaling.affine a ha b).value (.finite x) = .finite (a * x + b) := rfl

end CapacityControl
