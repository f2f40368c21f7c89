/-
  CapacityControl.Proofs.Fuzzy.Profile
  ────────────────────────────────────
  THE PROFILE OF A SHAPE, exactly.  The check of a shape accepts ramps with two different
  ends and triangles with their vertices in order, those with an upright side included
  (`check_eq_ok_iff`).  No value makes the membership in an accepted shape divide by zero,
  not even an infinite one (`InOrder.membership?_eq`), and the degrees run as the shape
  says: up or down between the ends of a ramp, up to the apex of a triangle and down from
  it (`InOrder.profile`).  Together: `regular_of_check`.
-/
import CapacityControl.Proofs.Fuzzy.Inference
import Mathlib.Order.Interval.Set.Defs
import Mathlib.Order.Monotone.Defs

namespace CapacityControl.Fuzzy

open Extended (finite)

namespace Shape

/-! ## §1. Accepted shapes. -/

/-- **A shape in order**: a ramp with two ends, or a triangle over an interval with its apex in
it, at a foot perhaps. -/
def InOrder : Shape Rat → Prop
  | ramp start stop => start ≠ stop
  | triangle left apex right => left ≤ apex ∧ apex ≤ right ∧ left < right

theorem check_map_finite (t : Shape Rat) :
    (t.map finite).check = .ok (t.map finite) ↔ t.InOrder := by
  cases t with
  | ramp start stop => simp [map, check, InOrder]
  | triangle left apex right => simp [map, check, InOrder]

/-- **The check accepts exactly the shapes in order**, and none with a corner that is no number. -/
theorem check_eq_ok_iff (s : Shape Extended) :
    s.check = .ok s ↔ ∃ t : Shape Rat, s = t.map finite ∧ t.InOrder := by
  constructor
  · intro h
    obtain ⟨t, rfl⟩ := exists_map_of_check h
    exact ⟨t, rfl, (check_map_finite t).mp h⟩
  · rintro ⟨t, rfl, h⟩
    exact (check_map_finite t).mpr h

/-! ## §2. Divisions. -/

section Divisions

variable {α : Type} [Scalar α]

/-- The quotient, unless the divisor is zero. -/
def divide? (a b : α) : Option α := if b == 0.0 then none else some (a / b)

/-- The degree on a rising or falling edge, if no division by zero comes up. -/
def rampDegree? (start stop x : α) : Option α :=
  if start < stop then
    if x ≤ start then some 0.0
    else if stop ≤ x then some 1.0
    else divide? (x - start) (stop - start)
  else if start ≤ x then some 0.0
  else if x ≤ stop then some 1.0
  else divide? (start - x) (start - stop)

/-- The degree on a triangle, if no division by zero comes up. -/
def triangleDegree? (left apex right x : α) : Option α :=
  if x < left ∨ right < x then some 0.0
  else if x == apex then some 1.0
  else if x < apex then divide? (x - left) (apex - left)
  else divide? (right - x) (right - apex)

/-- **The degree of membership, if no division by zero comes up** on the way to it. -/
def membership? (s : Shape α) (x : α) : Option α :=
  if Scalar.isNaN x then some Scalar.nan
  else match s with
    | ramp start stop => rampDegree? start stop x
    | triangle left apex right => triangleDegree? left apex right x

end Divisions

theorem divide?_eq (a : Extended) {q : Rat} (hq : q ≠ 0) :
    divide? a (finite q) = some (a / finite q) := by
  unfold divide?
  rw [Extended.zero_eq, Extended.finite_beq, if_neg (by simpa using hq)]

theorem rampDegree?_eq {start stop : Rat} (h : start ≠ stop) (x : Extended) :
    rampDegree? (finite start) (finite stop) x
      = some (rampDegree (finite start) (finite stop) x) := by
  unfold rampDegree? rampDegree
  simp only [Extended.finite_sub, divide?_eq _ (sub_ne_zero.mpr h),
    divide?_eq _ (sub_ne_zero.mpr h.symm)]
  split_ifs <;> rfl

theorem triangleDegree?_eq (left apex right : Rat) {x : Extended} (hx : Scalar.isNaN x = false) :
    triangleDegree? (finite left) (finite apex) (finite right) x
      = some (triangleDegree (finite left) (finite apex) (finite right) x) := by
  cases x with
  | nan => cases hx
  | infinite negative =>
    rw [triangleDegree_infinite]
    exact if_pos (outside_infinite left right negative)
  | finite q =>
    unfold triangleDegree? triangleDegree
    simp only [Extended.finite_lt, Extended.finite_beq, decide_eq_true_eq, Extended.finite_sub]
    split_ifs with hout hapex hbefore
    · rfl
    · rfl
    · -- With the left side upright everything before the apex is outside.
      have hfoot : left ≤ q := not_lt.mp fun h => hout (Or.inl h)
      exact divide?_eq _ (by linarith : 0 < apex - left).ne'
    · have hfoot : q ≤ right := not_lt.mp fun h => hout (Or.inr h)
      have hafter : apex < q := lt_of_le_of_ne (not_lt.mp hbefore) (Ne.symm hapex)
      exact divide?_eq _ (by linarith : 0 < right - apex).ne'

/-- **Membership in a shape in order never divides by zero**, whatever the value is. -/
theorem InOrder.membership?_eq {t : Shape Rat} (h : t.InOrder) (x : Extended) :
    (t.map finite).membership? x = some ((t.map finite).membership x) := by
  unfold membership? membership
  by_cases hx : Scalar.isNaN x = true
  · rw [if_pos hx, if_pos hx]
  · rw [if_neg hx, if_neg hx]
    cases t with
    | ramp start stop => exact rampDegree?_eq h x
    | triangle left apex right => exact triangleDegree?_eq left apex right (Bool.not_eq_true _ ▸ hx)

/-! ## §3. Profiles. -/

/-- **How the degrees of a shape run.**  Each case says where they rise and fall, and where they
are zero, positive or one. -/
inductive Profile : Shape Rat → (Rat → Rat) → Prop
  | rising {start stop : Rat} {degree : Rat → Rat} (span : start < stop)
      (rises : Monotone degree) (zero : ∀ x, degree x = 0 ↔ x ≤ start)
      (one : ∀ x, degree x = 1 ↔ stop ≤ x) : Profile (ramp start stop) degree
  | falling {start stop : Rat} {degree : Rat → Rat} (span : stop < start)
      (falls : Antitone degree) (zero : ∀ x, degree x = 0 ↔ start ≤ x)
      (one : ∀ x, degree x = 1 ↔ x ≤ stop) : Profile (ramp start stop) degree
  | triangle {left apex right : Rat} {degree : Rat → Rat} (hl : left ≤ apex) (hr : apex ≤ right)
      (span : left < right) (rises : MonotoneOn degree (Set.Iic apex))
      (falls : AntitoneOn degree (Set.Ici apex)) (one : ∀ x, degree x = 1 ↔ x = apex)
      (positive : ∀ x, 0 < degree x ↔ x ∈ Set.Ioo left right ∨ x = apex) :
      Profile (triangle left apex right) degree

theorem InOrder.profile {t : Shape Rat} (h : t.InOrder) : Profile t t.degree := by
  cases t with
  | ramp start stop =>
    rcases lt_or_gt_of_ne h with hspan | hspan
    · exact .rising hspan (fun _ _ => rising_degree_mono hspan)
        (fun _ => rising_degree_eq_zero_iff hspan) (fun _ => rising_degree_eq_one_iff hspan)
    · exact .falling hspan (fun _ _ => falling_degree_anti hspan)
        (fun _ => falling_degree_eq_zero_iff hspan) (fun _ => falling_degree_eq_one_iff hspan)
  | triangle left apex right =>
    obtain ⟨hl, hr, hspan⟩ := h
    exact .triangle hl hr hspan
      (fun _ _ _ hy hxy => triangle_degree_mono hl hr hxy hy)
      (fun _ hx _ _ hxy => triangle_degree_anti hl hr hxy hx)
      (fun _ => triangle_degree_eq_one_iff hl hr) (fun _ => triangle_degree_pos_iff_or hl hr)

/-- **A ramp and the same ramp the other way round add up to one** everywhere, at infinity as
well. -/
theorem ramp_membership_add_reversed {start stop : Rat} (h : start ≠ stop) {x : Extended}
    (hx : Scalar.isNaN x = false) :
    (ramp (finite start) (finite stop)).membership x
      + (ramp (finite stop) (finite start)).membership x = 1.0 := by
  cases x with
  | nan => cases hx
  | finite q =>
    have hsum : (ramp start stop).degree q + (ramp stop start).degree q = 1 := by
      rcases lt_or_gt_of_ne h with hspan | hspan
      · exact rising_degree_add_reversed hspan q
      · rw [add_comm]
        exact rising_degree_add_reversed hspan q
    show ((ramp start stop).map finite).membership (finite q)
      + ((ramp stop start).map finite).membership (finite q) = 1.0
    rw [membership_finite, membership_finite, Extended.finite_add, hsum, Extended.one_eq]
  | infinite negative =>
    -- One of the two is at the height of its start there, and the other at that of its stop.
    have hsides : (start < stop ↔ negative = true) ↔ ¬(stop < start ↔ negative = true) := by
      rcases lt_or_gt_of_ne h with hspan | hspan
      · simp [hspan, hspan.not_gt]
      · simp [hspan, hspan.not_gt]
    have hzero_one : (0.0 : Extended) + 1.0 = 1.0 := by norm_num
    have hone_zero : (1.0 : Extended) + 0.0 = 1.0 := by norm_num
    unfold membership
    rw [Extended.isNaN_infinite, if_neg Bool.false_ne_true, if_neg Bool.false_ne_true]
    show rampDegree (finite start) (finite stop) (.infinite negative)
      + rampDegree (finite stop) (finite start) (.infinite negative) = 1.0
    rw [rampDegree_infinite, rampDegree_infinite]
    by_cases hfirst : start < stop ↔ negative = true
    · rw [if_pos hfirst, if_neg (hsides.mp hfirst)]
      exact hzero_one
    · rw [if_neg hfirst, if_pos (not_not.mp (mt hsides.mpr hfirst))]
      exact hone_zero

/-! ## §4. Regular shapes. -/

/-- **What holds of a shape in order**: its membership divides by nothing that is zero, its degrees
are degrees and run as the shape says, and for a ramp they are what those of the ramp the other way
round leave open. -/
structure Regular (t : Shape Rat) : Prop where
  divides : ∀ x : Extended, (t.map finite).membership? x = some ((t.map finite).membership x)
  inUnit : ∀ x : Extended, Scalar.isNaN x = false →
    Scalar.inUnit ((t.map finite).membership x) = true
  exact : ∀ x : Rat, (t.map finite).membership (finite x) = finite (t.degree x)
  profile : Profile t t.degree
  reversed : ∀ start stop, t = ramp start stop → ∀ x : Extended, Scalar.isNaN x = false →
    (ramp (finite start) (finite stop)).membership x
      + (ramp (finite stop) (finite start)).membership x = 1.0

/-- **Every shape that is accepted is regular**, in exact arithmetic: its corners are rational and
in order, and its membership behaves as the shape says. -/
theorem regular_of_check {s : Shape Extended} (h : s.check = .ok s) :
    ∃ t : Shape Rat, s = t.map finite ∧ t.InOrder ∧ t.Regular := by
  obtain ⟨t, rfl, horder⟩ := (check_eq_ok_iff s).mp h
  refine ⟨t, rfl, horder, horder.membership?_eq, fun x hx => t.membership_inUnit hx,
    t.membership_finite, horder.profile, ?_⟩
  rintro start stop rfl x hx
  exact ramp_membership_add_reversed horder hx

/-- A triangle with its apex at its left foot is accepted and goes up in one leap: it is zero
before the foot and one at it. -/
theorem regular_of_check_upright :
    ((triangle (finite 0) (finite 0) (finite 1)).check : Except _ (Shape Extended))
        = .ok (triangle (finite 0) (finite 0) (finite 1))
      ∧ ∃ degree : Rat → Rat,
        (∀ x, (triangle (finite 0) (finite 0) (finite 1)).membership (finite x)
            = finite (degree x))
          ∧ (∀ x, degree x = 1 ↔ x = 0) ∧ ¬0 < degree (-1) ∧ 0 < degree (1 / 2)
          ∧ degree (1 / 2) ≤ degree (1 / 4) := by
  have haccepted : (triangle (finite 0) (finite 0) (finite 1)).check
      = .ok (triangle (finite 0) (finite 0) (finite 1)) :=
    (check_map_finite (triangle 0 0 1)).mpr (by unfold InOrder; norm_num)
  obtain ⟨t, ht, _, hregular⟩ := regular_of_check haccepted
  cases t with
  | ramp start stop => cases ht
  | triangle left apex right =>
    cases ht
    have hexact := hregular.exact
    cases hregular.profile with
    | triangle _ _ _ _ falls one positive =>
      refine ⟨haccepted, _, hexact, one, ?_, ?_, falls ?_ ?_ ?_⟩
      · rw [positive]
        norm_num
      · rw [positive]
        norm_num
      · norm_num
      · norm_num
      · norm_num

end Shape

end CapacityControl.Fuzzy
