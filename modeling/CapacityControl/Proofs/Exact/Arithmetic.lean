/-
  CapacityControl.Proofs.Exact.Arithmetic
  ───────────────────────────────────────
  RATIONALS INSIDE THE EXACT ARITHMETIC.  As long as no operand is infinite or
  undefined and nothing is divided by zero, an operation of `Extended` is the
  operation of the rationals under `finite`.  The equations below, tagged for the
  simplifier, push `finite` outwards, so that a law of the loop becomes a law of
  rational numbers.
-/
import CapacityControl.Requirement
import CapacityControl.Scalar.Extended
import Mathlib.Algebra.Order.Field.Basic
import Mathlib.Data.Rat.Cast.Order
import Mathlib.Tactic.FieldSimp
import Mathlib.Tactic.Linarith
import Mathlib.Tactic.NormNum
import Mathlib.Tactic.Ring

namespace CapacityControl.Extended

attribute [simp] finite_add finite_neg finite_sub finite_mul finite_lt finite_le finite_beq

/-! ## §1. Numerals. -/

/-- A decimal numeral stands for the rational that it spells. -/
@[simp] theorem ofScientific_eq (digits places : Nat) :
    (OfScientific.ofScientific digits true places : Extended)
      = finite ((digits : Rat) / 10 ^ places) := by
  show finite (ofDecimal false digits (-(places : Int))) = _
  simp [ofDecimal, zpow_neg, div_eq_mul_inv]

theorem zero_eq : (0.0 : Extended) = finite 0 := by norm_num

theorem one_eq : (1.0 : Extended) = finite 1 := by norm_num

theorem two_eq : (2.0 : Extended) = finite 2 := by norm_num

@[simp] theorem ofNat_eq (n : Nat) : (Scalar.ofNat n : Extended) = finite n := rfl

@[simp] theorem floor_finite (q : Rat) : Scalar.floor (finite q) = q.floor.toNat := rfl

@[simp] theorem ceil_finite (q : Rat) : Scalar.ceil (finite q) = q.ceil.toNat := rfl

/-! ## §2. Tests and choices. -/

@[simp] theorem isNaN_finite (q : Rat) : Scalar.isNaN (finite q) = false := by
  unfold Scalar.isNaN
  simp

theorem isNaN_infinite (negative : Bool) : Scalar.isNaN (infinite negative) = false := by
  cases negative with
  | _ => rfl

@[simp] theorem isFinite_finite (q : Rat) : Scalar.isFinite (finite q) = true := rfl

@[simp] theorem isFinite_nan : Scalar.isFinite (nan : Extended) = false := rfl

@[simp] theorem scalar_nan : (Scalar.nan : Extended) = nan := rfl

@[simp] theorem finite_inj (a b : Rat) : finite a = finite b ↔ a = b := by
  constructor
  · intro h
    injection h
  · intro h
    rw [h]

@[simp] theorem min_finite (a b : Rat) :
    Scalar.min (finite a) (finite b) = finite (min a b) := by
  unfold Scalar.min
  rw [isNaN_finite, if_neg (by simp)]
  by_cases h : b < a
  · rw [if_pos ((finite_lt b a).mpr h), min_eq_right h.le]
  · rw [if_neg (mt (finite_lt b a).mp h), min_eq_left (not_lt.mp h)]

@[simp] theorem max_finite (a b : Rat) :
    Scalar.max (finite a) (finite b) = finite (max a b) := by
  unfold Scalar.max
  rw [isNaN_finite, if_neg (by simp)]
  by_cases h : a < b
  · rw [if_pos ((finite_lt a b).mpr h), max_eq_right h.le]
  · rw [if_neg (mt (finite_lt a b).mp h), max_eq_left (not_lt.mp h)]

@[simp] theorem abs_finite (q : Rat) : Scalar.abs (finite q) = finite |q| := by
  unfold Scalar.abs
  rw [zero_eq]
  by_cases h : q < 0
  · rw [if_pos ((finite_lt q 0).mpr h), finite_neg, abs_of_neg h]
  · rw [if_neg (mt (finite_lt q 0).mp h), abs_of_nonneg (not_lt.mp h)]

@[simp] theorem clampUnit_finite (q : Rat) :
    Scalar.clampUnit (finite q) = finite (max 0 (min q 1)) := by
  unfold Scalar.clampUnit
  rw [zero_eq, one_eq]
  simp only [finite_lt]
  split_ifs with hlow hhigh
  · rw [min_eq_left (by linarith), max_eq_left hlow.le]
  · rw [min_eq_right hhigh.le, max_eq_right zero_le_one]
  · rw [min_eq_left (not_lt.mp hhigh), max_eq_right (not_lt.mp hlow)]

/-! ## §3. Between two rationals. -/

theorem le_of_lt {x y : Extended} (h : x < y) : x ≤ y := by
  show (lt x y || beq x y) = true
  rw [show lt x y = true from h, Bool.true_or]

/-- What lies between two rationals is rational. -/
theorem exists_finite_of_le {x : Extended} {a b : Rat} (hlow : finite a ≤ x)
    (hhigh : x ≤ finite b) : ∃ q, x = finite q ∧ a ≤ q ∧ q ≤ b := by
  cases x with
  | finite q => exact ⟨q, rfl, (finite_le a q).mp hlow, (finite_le q b).mp hhigh⟩
  | infinite negative =>
    cases negative with
    | true => cases hlow
    | false => cases hhigh
  | nan => cases hlow

theorem exists_finite_of_inUnit {x : Extended} (h : Scalar.inUnit x = true) :
    ∃ q, x = finite q ∧ 0 ≤ q ∧ q ≤ 1 := by
  unfold Scalar.inUnit at h
  rw [Bool.and_eq_true, decide_eq_true_iff, decide_eq_true_iff, zero_eq, one_eq] at h
  exact exists_finite_of_le h.1 h.2

/-! ## §4. Accepted rationals. -/

theorem ensureFactor_finite {q : Rat} (h0 : 0 < q) (h1 : q ≤ 1) (r : Requirement) :
    ensureFactor r (finite q) = .ok (finite q) := by
  have hin : 0.0 < finite q ∧ finite q ≤ 1.0 := by
    rw [zero_eq, one_eq, finite_lt, finite_le]
    exact ⟨h0, h1⟩
  exact if_pos hin

theorem ensureInterior_finite {q : Rat} (h0 : 0 < q) (h1 : q < 1) (r : Requirement) :
    ensureInterior r (finite q) = .ok (finite q) := by
  have hin : 0.0 < finite q ∧ finite q < 1.0 := by
    rw [zero_eq, one_eq, finite_lt, finite_lt]
    exact ⟨h0, h1⟩
  exact if_pos hin

end CapacityControl.Extended
