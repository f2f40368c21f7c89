/-
  CapacityControl.Proofs.Fuzzy.Centre
  ───────────────────────────────────
  THE CENTRE OF MASS, exactly.  For a rational membership function the midpoint rule
  computes a quotient of two sums over the sample points (`centre_finite`).  From the
  sums: which side of a point `c` the centre lies on is the sign of the moment about
  `c` (`le_centroid`, `lt_centroid` and their mirror images), and a function that is
  symmetric about `c`, on a grid that is symmetric about `c` as far as the function
  reaches, has no moment about it (`lever_eq_zero`).  Mass that is added moves the centre
  to the side to which it pulls (`centroid_le_centroid`).
-/
import CapacityControl.Fuzzy.Centroid
import CapacityControl.Proofs.Exact.Arithmetic
import Mathlib.Algebra.BigOperators.Intervals
import Mathlib.Algebra.BigOperators.Ring.Finset
import Mathlib.Algebra.Order.BigOperators.Group.Finset

namespace CapacityControl.Fuzzy

open Extended (finite)
open Finset (range)

namespace Centroid

/-! ## §1. Sums over the sample points. -/

/-- The `i`-th sample point of `[lo, hi]`, which is the midpoint of the `i`-th cell. -/
def point (c : Centroid) (lo hi : Rat) (i : Int) : Rat :=
  lo + ((i : Rat) + 1 / 2) * ((hi - lo) / c.resolution)

/-- The sum of the degrees. -/
def area (c : Centroid) (f : Rat → Rat) (lo hi : Rat) : Rat :=
  ∑ i ∈ range c.resolution, f (c.point lo hi i)

/-- The moment about `p`: degrees weighted with how far right of `p` they are. -/
def lever (c : Centroid) (f : Rat → Rat) (lo hi p : Rat) : Rat :=
  ∑ i ∈ range c.resolution, (c.point lo hi i - p) * f (c.point lo hi i)

/-- The quotient that the midpoint rule comes to. -/
def centroid (c : Centroid) (f : Rat → Rat) (lo hi : Rat) : Rat :=
  c.lever f lo hi 0 / c.area f lo hi

/-- Moment and area accumulate over the cells. -/
theorem integrate_finite {membership : Extended → Extended} {f : Rat → Rat}
    (hf : ∀ x, membership (finite x) = finite (f x)) (lo width : Rat) (n : Nat) :
    integrate membership (finite lo) (finite width) n
      = (finite (∑ i ∈ range n, (lo + ((i : Rat) + 1 / 2) * width)
            * f (lo + ((i : Rat) + 1 / 2) * width)),
          finite (∑ i ∈ range n, f (lo + ((i : Rat) + 1 / 2) * width))) := by
  unfold integrate
  -- By induction on the cells, the way the fold takes them.
  induction n with
  | zero => simp
  | succ n ih =>
    have hmid : midpoint (finite lo) (finite width) n
        = finite (lo + ((n : Rat) + 1 / 2) * width) := by
      unfold midpoint
      norm_num
    rw [Nat.fold_succ, ih]
    simp only [hmid, hf, Extended.finite_mul, Extended.finite_add, Finset.sum_range_succ]

/-- **The centre of mass is the quotient of two sums**, and undefined without mass. -/
theorem centre_finite (c : Centroid) {membership : Extended → Extended} {f : Rat → Rat}
    (hf : ∀ x, membership (finite x) = finite (f x)) (lo hi : Rat) :
    c.centre membership (finite lo) (finite hi)
      = if c.area f lo hi = 0 then .nan else finite (c.centroid f lo hi) := by
  rcases Nat.eq_zero_or_pos c.resolution with hzero | hpos
  · obtain ⟨_⟩ := c
    -- Without cells both sums are empty, so there is no mass.
    subst hzero
    simp [centre, integrate, area]
  · unfold centre
    have hne : (c.resolution : Rat) ≠ 0 := by
      exact_mod_cast hpos.ne'
    have hwidth : c.cellWidth (finite lo) (finite hi)
        = finite ((hi - lo) / c.resolution) := by
      unfold cellWidth
      rw [Extended.finite_sub, Extended.ofNat_eq, Extended.finite_div _ _ hne]
    have harea : ∑ i ∈ range c.resolution, f (lo + ((i : Rat) + 1 / 2)
        * ((hi - lo) / c.resolution)) = c.area f lo hi := by
      simp [area, point]
    have hlever : ∑ i ∈ range c.resolution, (lo + ((i : Rat) + 1 / 2)
        * ((hi - lo) / c.resolution)) * f (lo + ((i : Rat) + 1 / 2)
        * ((hi - lo) / c.resolution)) = c.lever f lo hi 0 := by
      simp [lever, point]
    rw [hwidth, integrate_finite hf]
    simp only [harea, hlever, Extended.ofScientific_eq, Extended.finite_beq]
    by_cases hmass : c.area f lo hi = 0
    · simp [hmass]
    · rw [if_neg (by simpa using hmass), if_neg hmass, Extended.finite_div _ _ hmass]
      rfl

/-! ## §2. On which side of a point the centre lies. -/

variable {c : Centroid} {f g : Rat → Rat} {lo hi p : Rat}

/-- The moment about a point is the moment about zero, less the area at that point. -/
theorem lever_eq (c : Centroid) (f : Rat → Rat) (lo hi p : Rat) :
    c.lever f lo hi p = c.lever f lo hi 0 - p * c.area f lo hi := by
  unfold lever area
  rw [Finset.mul_sum, ← Finset.sum_sub_distrib]
  refine Finset.sum_congr rfl fun i _ => ?_
  ring

theorem le_centroid (harea : 0 < c.area f lo hi) (h : 0 ≤ c.lever f lo hi p) :
    p ≤ c.centroid f lo hi := by
  rw [lever_eq] at h
  unfold centroid
  rw [le_div_iff₀ harea]
  linarith

theorem centroid_le (harea : 0 < c.area f lo hi) (h : c.lever f lo hi p ≤ 0) :
    c.centroid f lo hi ≤ p := by
  rw [lever_eq] at h
  unfold centroid
  rw [div_le_iff₀ harea]
  linarith

theorem lt_centroid (harea : 0 < c.area f lo hi) (h : 0 < c.lever f lo hi p) :
    p < c.centroid f lo hi := by
  rw [lever_eq] at h
  unfold centroid
  rw [lt_div_iff₀ harea]
  linarith

theorem centroid_lt (harea : 0 < c.area f lo hi) (h : c.lever f lo hi p < 0) :
    c.centroid f lo hi < p := by
  rw [lever_eq] at h
  unfold centroid
  rw [div_lt_iff₀ harea]
  linarith

/-! ## §3. Mass, and mass on one side. -/

/-- A function that is nowhere negative and positive at one sample point has mass. -/
theorem area_pos (hf : ∀ x, 0 ≤ f x) {i : Nat} (hi' : i < c.resolution)
    (hpos : 0 < f (c.point lo hi i)) : 0 < c.area f lo hi :=
  Finset.sum_pos' (fun _ _ => hf _) ⟨i, Finset.mem_range.mpr hi', hpos⟩

/-- A function that is nowhere negative has no mass only if it is zero at all sample points. -/
theorem area_eq_zero_iff (hf : ∀ i : Nat, i < c.resolution → 0 ≤ f (c.point lo hi i)) :
    c.area f lo hi = 0 ↔ ∀ i < c.resolution, f (c.point lo hi i) = 0 := by
  unfold area
  rw [Finset.sum_eq_zero_iff_of_nonneg fun i hi' => hf i (Finset.mem_range.mp hi')]
  simp only [Finset.mem_range]

/-- Mass to the right of `p` only has a positive moment about `p`. -/
theorem lever_pos (hf : ∀ x, 0 ≤ f x) (hleft : ∀ x, x ≤ p → f x = 0)
    (harea : 0 < c.area f lo hi) : 0 < c.lever f lo hi p := by
  obtain ⟨i, hi', hne⟩ := Finset.exists_ne_zero_of_sum_ne_zero harea.ne'
  -- The point that has mass cannot lie at `p` or to the left of it.
  have hright : p < c.point lo hi i := by
    by_contra h
    exact hne (hleft _ (not_lt.mp h))
  refine Finset.sum_pos' (fun j _ => ?_) ⟨i, hi', ?_⟩
  · rcases le_or_gt (c.point lo hi j) p with hj | hj
    · rw [hleft _ hj, mul_zero]
    · exact mul_nonneg (by linarith) (hf _)
  · exact mul_pos (by linarith) (lt_of_le_of_ne (hf _) (Ne.symm hne))

/-- Mass to the left of `p` only has a negative moment about `p`. -/
theorem lever_neg (hf : ∀ x, 0 ≤ f x) (hright : ∀ x, p ≤ x → f x = 0)
    (harea : 0 < c.area f lo hi) : c.lever f lo hi p < 0 := by
  obtain ⟨i, hi', hne⟩ := Finset.exists_ne_zero_of_sum_ne_zero harea.ne'
  have hleft : c.point lo hi i < p := by
    by_contra h
    exact hne (hright _ (not_lt.mp h))
  refine Finset.sum_neg' (fun j _ => ?_) ⟨i, hi', ?_⟩
  · rcases le_or_gt p (c.point lo hi j) with hj | hj
    · rw [hright _ hj, mul_zero]
    · exact mul_nonpos_of_nonpos_of_nonneg (by linarith) (hf _)
  · exact mul_neg_of_neg_of_pos (by linarith) (lt_of_le_of_ne (hf _) (Ne.symm hne))

/-- More mass to the right of `p`, and less to the left, does not lower the moment. -/
theorem lever_le_lever (hleft : ∀ x, x < p → f x ≤ g x) (hright : ∀ x, p < x → g x ≤ f x) :
    c.lever g lo hi p ≤ c.lever f lo hi p := by
  refine Finset.sum_le_sum fun i _ => ?_
  rcases lt_trichotomy (c.point lo hi i) p with h | h | h
  · exact mul_le_mul_of_nonpos_left (hleft _ h) (by linarith)
  · rw [h, sub_self, zero_mul, zero_mul]
  · exact mul_le_mul_of_nonneg_left (hright _ h) (by linarith)

/-- More mass to the right of `p`, and the same to the left, does not lower the moment. -/
theorem lever_mono (hleft : ∀ x, x < p → f x = g x) (hright : ∀ x, p < x → g x ≤ f x) :
    c.lever g lo hi p ≤ c.lever f lo hi p :=
  lever_le_lever (fun x hx => (hleft x hx).le) hright

/-- More mass to the left of `p`, and the same to the right, does not raise the moment. -/
theorem lever_anti (hleft : ∀ x, x < p → g x ≤ f x) (hright : ∀ x, p < x → f x = g x) :
    c.lever f lo hi p ≤ c.lever g lo hi p :=
  lever_le_lever hleft fun x hx => (hright x hx).le

/-! ## §4. Symmetric functions. -/

/-- A sum over `0, …, n - 1` of terms that change sign when `i` is reflected to `k - i`
is zero, if no term outside contributes. -/
theorem sum_range_eq_zero_of_reflect {F : Int → Rat} {n : Nat} {k : Int}
    (hodd : ∀ i, F (k - i) = -F i) (hsupp : ∀ i, F i ≠ 0 → 0 ≤ i ∧ i < n) :
    ∑ i ∈ range n, F i = 0 := by
  -- Terms that vanish are dropped first, so that the mirror image of an index is an index.
  rw [← Finset.sum_filter_ne_zero]
  refine Finset.sum_involution (fun i _ => (k - i).toNat) ?_ ?_ ?_ ?_
  all_goals
    intro i hi
    obtain ⟨_, hne⟩ := Finset.mem_filter.mp hi
    have hmirror : F (k - i) ≠ 0 := by
      rw [hodd]
      exact neg_ne_zero.mpr hne
    obtain ⟨hlow, hhigh⟩ := hsupp _ hmirror
    have hcast : ((k - i).toNat : Int) = k - i := Int.toNat_of_nonneg hlow
  · rw [hcast, hodd, add_neg_cancel]
  · -- A fixed point of the reflection would be its own opposite.
    intro _ hfix
    have hself : k - i = i := by rw [← hcast, hfix]
    have hzero := hodd i
    rw [hself] at hzero
    exact hne (by linarith)
  · rw [Finset.mem_filter, Finset.mem_range, hcast]
    exact ⟨by omega, hmirror⟩
  · show (k - ((k - i).toNat : Int)).toNat = i
    rw [hcast]
    omega

/-- **A symmetric function has no moment about its axis**, if the reflection maps the grid
into itself as far as the function reaches. -/
theorem lever_eq_zero {k : Int} (hgrid : ∀ i, c.point lo hi (k - i) = 2 * p - c.point lo hi i)
    (hsymm : ∀ x, f (2 * p - x) = f x)
    (hsupp : ∀ i, f (c.point lo hi i) ≠ 0 → 0 ≤ i ∧ i < c.resolution) :
    c.lever f lo hi p = 0 := by
  refine sum_range_eq_zero_of_reflect (F := fun i => (c.point lo hi i - p) * f (c.point lo hi i))
    (k := k) ?_ ?_
  · intro i
    show (c.point lo hi (k - i) - p) * f (c.point lo hi (k - i)) = _
    rw [hgrid, hsymm]
    ring
  · intro i hne
    exact hsupp i (right_ne_zero_of_mul hne)

/-! ## §5. Mirror images. -/

/-- The grid is symmetric about the middle of the range. -/
theorem point_opposite {i : Nat} (hi' : i < c.resolution) :
    c.point lo hi (c.resolution - 1 - i : Nat) = lo + hi - c.point lo hi i := by
  have hne : (c.resolution : Rat) ≠ 0 := by
    exact_mod_cast (Nat.zero_lt_of_lt hi').ne'
  unfold point
  rw [Nat.sub_sub]
  push_cast [Nat.cast_sub (by omega : 1 + i ≤ c.resolution)]
  field_simp
  ring

section Mirror

variable (h : ∀ i : Nat, i < c.resolution → g (c.point lo hi i) = f (lo + hi - c.point lo hi i))

include h

theorem area_mirror : c.area g lo hi = c.area f lo hi := by
  unfold area
  rw [← Finset.sum_range_reflect]
  refine Finset.sum_congr rfl fun i hi' => ?_
  have hin := Finset.mem_range.mp hi'
  rw [h _ (by omega), point_opposite hin, sub_sub_cancel]

/-- **A mirror image** has the opposite moment about the mirror image of a point. -/
theorem lever_mirror (p : Rat) : c.lever g lo hi p = -c.lever f lo hi (lo + hi - p) := by
  unfold lever
  rw [← Finset.sum_range_reflect, ← Finset.sum_neg_distrib]
  refine Finset.sum_congr rfl fun i hi' => ?_
  have hin := Finset.mem_range.mp hi'
  rw [h _ (by omega), point_opposite hin, sub_sub_cancel]
  ring

/-- The centroid of a mirror image is the mirror image of the centroid. -/
theorem centroid_mirror (harea : c.area f lo hi ≠ 0) :
    c.centroid g lo hi = lo + hi - c.centroid f lo hi := by
  unfold centroid
  rw [lever_mirror h, area_mirror h, lever_eq, sub_zero]
  field_simp
  ring

end Mirror

/-! ## §6. Added mass. -/

theorem lever_add (c : Centroid) (f g : Rat → Rat) (lo hi p : Rat) :
    c.lever (fun x => f x + g x) lo hi p = c.lever f lo hi p + c.lever g lo hi p := by
  unfold lever
  rw [← Finset.sum_add_distrib]
  exact Finset.sum_congr rfl fun i _ => by ring

theorem lever_mul (c : Centroid) (k : Rat) (f : Rat → Rat) (lo hi p : Rat) :
    c.lever (fun x => k * f x) lo hi p = k * c.lever f lo hi p := by
  unfold lever
  rw [Finset.mul_sum]
  exact Finset.sum_congr rfl fun i _ => by ring

theorem area_add (c : Centroid) (f g : Rat → Rat) (lo hi : Rat) :
    c.area (fun x => f x + g x) lo hi = c.area f lo hi + c.area g lo hi :=
  Finset.sum_add_distrib

theorem area_mul (c : Centroid) (k : Rat) (f : Rat → Rat) (lo hi : Rat) :
    c.area (fun x => k * f x) lo hi = k * c.area f lo hi :=
  (Finset.mul_sum _ _ _).symm

/-- What scales a function does not move its centroid. -/
theorem centroid_mul (c : Centroid) {k : Rat} (hk : k ≠ 0) (f : Rat → Rat) (lo hi : Rat) :
    c.centroid (fun x => k * f x) lo hi = c.centroid f lo hi := by
  unfold centroid
  rw [lever_mul, area_mul, mul_div_mul_left _ _ hk]

/-- Further left there is more moment, by the area for each unit of the way. -/
theorem lever_shift (c : Centroid) (f : Rat → Rat) (lo hi p q : Rat) :
    c.lever f lo hi q = c.lever f lo hi p + (p - q) * c.area f lo hi := by
  rw [lever_eq c f lo hi p, lever_eq c f lo hi q]
  ring

/-- There is no moment about the centroid. -/
theorem lever_centroid (harea : c.area f lo hi ≠ 0) :
    c.lever f lo hi (c.centroid f lo hi) = 0 := by
  rw [lever_eq]
  unfold centroid
  rw [div_mul_cancel₀ _ harea, sub_self]

section Added

variable {k : Rat} (hf : 0 < c.area f lo hi) (hg : 0 < c.area g lo hi) {m : Rat → Rat}
  (hadd : ∀ x, g x = f x + k * m x)

include hf hadd

theorem lever_added : c.lever g lo hi (c.centroid f lo hi)
    = k * c.lever m lo hi (c.centroid f lo hi) := by
  rw [funext hadd, lever_add, lever_mul, lever_centroid hf.ne', zero_add]

include hg

/-- **Mass that pulls to the right** moves the centroid to the right. -/
theorem centroid_le_centroid (hk : 0 ≤ k) (hm : 0 ≤ c.lever m lo hi (c.centroid f lo hi)) :
    c.centroid f lo hi ≤ c.centroid g lo hi :=
  le_centroid hg (lever_added hf hadd ▸ mul_nonneg hk hm)

theorem centroid_lt_centroid (hk : 0 < k) (hm : 0 < c.lever m lo hi (c.centroid f lo hi)) :
    c.centroid f lo hi < c.centroid g lo hi :=
  lt_centroid hg (lever_added hf hadd ▸ mul_pos hk hm)

/-- **Mass that pulls to the left** moves the centroid to the left. -/
theorem centroid_ge_centroid (hk : 0 ≤ k) (hm : c.lever m lo hi (c.centroid f lo hi) ≤ 0) :
    c.centroid g lo hi ≤ c.centroid f lo hi :=
  centroid_le hg (lever_added hf hadd ▸ mul_nonpos_of_nonneg_of_nonpos hk hm)

theorem centroid_gt_centroid (hk : 0 < k) (hm : c.lever m lo hi (c.centroid f lo hi) < 0) :
    c.centroid g lo hi < c.centroid f lo hi :=
  centroid_lt hg (lever_added hf hadd ▸ mul_neg_of_pos_of_neg hk hm)

/-- **Mass that lies right of a point**, added to what lies left of it, moves the centroid to
the right. -/
theorem centroid_le_of_pivot (hk : 0 ≤ k) (hleft : c.lever f lo hi p ≤ 0)
    (hright : 0 ≤ c.lever m lo hi p) (harea : 0 ≤ c.area m lo hi) :
    c.centroid f lo hi ≤ c.centroid g lo hi := by
  refine centroid_le_centroid hf hg hadd hk ?_
  rw [lever_shift c m lo hi p]
  exact add_nonneg hright (mul_nonneg (sub_nonneg.mpr (centroid_le hf hleft)) harea)

theorem centroid_lt_of_pivot (hk : 0 < k) (hleft : c.lever f lo hi p ≤ 0)
    (hright : 0 < c.lever m lo hi p) (harea : 0 ≤ c.area m lo hi) :
    c.centroid f lo hi < c.centroid g lo hi := by
  refine centroid_lt_centroid hf hg hadd hk ?_
  rw [lever_shift c m lo hi p]
  exact add_pos_of_pos_of_nonneg hright
    (mul_nonneg (sub_nonneg.mpr (centroid_le hf hleft)) harea)

/-- **Mass that lies left of a point**, added to what lies right of it, moves the centroid to
the left. -/
theorem centroid_ge_of_pivot (hk : 0 ≤ k) (hright : 0 ≤ c.lever f lo hi p)
    (hleft : c.lever m lo hi p ≤ 0) (harea : 0 ≤ c.area m lo hi) :
    c.centroid g lo hi ≤ c.centroid f lo hi := by
  refine centroid_ge_centroid hf hg hadd hk ?_
  rw [lever_shift c m lo hi p]
  exact add_nonpos hleft
    (mul_nonpos_of_nonpos_of_nonneg (sub_nonpos.mpr (le_centroid hf hright)) harea)

theorem centroid_gt_of_pivot (hk : 0 < k) (hright : 0 ≤ c.lever f lo hi p)
    (hleft : c.lever m lo hi p < 0) (harea : 0 ≤ c.area m lo hi) :
    c.centroid g lo hi < c.centroid f lo hi := by
  refine centroid_gt_centroid hf hg hadd hk ?_
  rw [lever_shift c m lo hi p]
  exact add_neg_of_neg_of_nonpos hleft
    (mul_nonpos_of_nonpos_of_nonneg (sub_nonpos.mpr (le_centroid hf hright)) harea)

end Added

/-! ## §7. Leaning functions. -/

section Leaning

variable {k : Int} (hgrid : ∀ i, c.point lo hi (k - i) = 2 * p - c.point lo hi i)
  (hsymm : ∀ x, f (2 * p - x) = f x) (hpos : ∀ x, 0 ≤ f x)
  (hsupp : ∀ i, f (c.point lo hi i) ≠ 0 → 0 ≤ i ∧ i < c.resolution)

include hgrid hsymm hpos hsupp

/-- **A symmetric function leans to the right** once it is multiplied by one that is nowhere
smaller right of the axis than at the mirror image. -/
theorem lever_mul_nonneg (hlean : ∀ x, p ≤ x → g (2 * p - x) ≤ g x) :
    0 ≤ c.lever (fun x => f x * g x) lo hi p := by
  -- The part of `g` that is symmetric has no moment, and the rest pulls to the right.
  have heven : c.lever (fun x => f x * (g x + g (2 * p - x))) lo hi p = 0 := by
    refine lever_eq_zero hgrid (fun x => ?_) (fun i hne => hsupp i (left_ne_zero_of_mul hne))
    rw [hsymm, sub_sub_cancel, add_comm]
  have hodd : 0 ≤ c.lever (fun x => f x * (g x - g (2 * p - x))) lo hi p := by
    refine Finset.sum_nonneg fun i _ => ?_
    generalize c.point lo hi i = x
    rcases le_total p x with hx | hx
    · exact mul_nonneg (by linarith) (mul_nonneg (hpos x) (by linarith [hlean x hx]))
    · have hmirror := hlean (2 * p - x) (by linarith)
      rw [sub_sub_cancel] at hmirror
      exact mul_nonneg_of_nonpos_of_nonpos (by linarith)
        (mul_nonpos_of_nonneg_of_nonpos (hpos x) (by linarith))
  have hsplit : c.lever (fun x => 2 * (f x * g x)) lo hi p
      = c.lever (fun x => f x * (g x + g (2 * p - x))) lo hi p
        + c.lever (fun x => f x * (g x - g (2 * p - x))) lo hi p := by
    rw [← lever_add]
    exact congrArg (c.lever · lo hi p) (funext fun x => by ring)
  rw [lever_mul, heven, zero_add] at hsplit
  linarith

/-- **A symmetric function leans to the left** once it is multiplied by one that is nowhere
larger right of the axis than at the mirror image. -/
theorem lever_mul_nonpos (hlean : ∀ x, p ≤ x → g x ≤ g (2 * p - x)) :
    c.lever (fun x => f x * g x) lo hi p ≤ 0 := by
  have hneg := lever_mul_nonneg hgrid hsymm hpos hsupp (g := fun x => -1 * g x)
    fun x hx => by linarith [hlean x hx]
  have hflip : c.lever (fun x => f x * (-1 * g x)) lo hi p
      = -1 * c.lever (fun x => f x * g x) lo hi p := by
    rw [← lever_mul]
    exact congrArg (c.lever · lo hi p) (funext fun x => by ring)
  linarith

end Leaning

end Centroid

end CapacityControl.Fuzzy
