/-
  CapacityControl.Proofs.Surface.Balance
  ──────────────────────────────────────
  ON WHICH SIDE A BLEND BALANCES.  The centroid of a blend has a bound in the apex of a
  term as soon as every other set with any weight stays on one side of that apex: the
  set of the term alone balances at its apex, because it is symmetric and so is the
  grid of sample points, and all the other sets only add mass on one side
  (`apex_le_centroid`, `centroid_le_apex`).  Sets that all stay on one side of a point
  balance strictly on that side (`lt_centroid_blend`, `centroid_blend_lt`).
-/
import CapacityControl.Proofs.Surface.Blend

namespace CapacityControl.Control

open Fuzzy
open Centroid (standard)

variable {w : RuleCell → Rat} {d : DeltaTerm} {p x : Rat}

/-! ## §1. The sample points. -/

/-- The sample points are the odd multiples of a two-hundredth. -/
theorem point_standard (i : Int) : standard.point (-1) 1 i = (2 * i - 199) / 200 := by
  simp only [Centroid.point, standard]
  push_cast
  ring

theorem point_mem_grid {i : Int} (hlow : -1 < standard.point (-1) 1 i)
    (hhigh : standard.point (-1) 1 i < 1) : 0 ≤ i ∧ i < standard.resolution := by
  rw [point_standard] at hlow hhigh
  have hlow' : (-1 : Rat) < i := by linarith
  have hhigh' : (i : Rat) < 200 := by linarith
  have hleft : (-1 : Int) < i := by exact_mod_cast hlow'
  have hright : i < (200 : Int) := by exact_mod_cast hhigh'
  exact ⟨by omega, hright⟩

/-- A sample point within the set of a change. -/
def DeltaTerm.sample : DeltaTerm → Nat
  | .bigDown => 45
  | .down => 87
  | .stay => 100
  | .up => 112
  | .bigUp => 154

theorem DeltaTerm.sample_lt (d : DeltaTerm) : d.sample < standard.resolution := by
  cases d <;> decide

theorem DeltaTerm.degree_sample_pos (d : DeltaTerm) :
    0 < d.degree (standard.point (-1) 1 d.sample) := by
  rw [degree_pos_iff, point_standard]
  cases d <;> norm_num [left, right, sample]

/-- A set of any weight is met by a sample point, so the blend has mass. -/
theorem area_blend_pos (h0 : ∀ cell, 0 ≤ w cell) (h1 : ∀ cell, w cell ≤ 1) {cell : RuleCell}
    (hpos : 0 < w cell) : 0 < standard.area (blend w) (-1) 1 := by
  refine Centroid.area_pos (blend_nonneg h0 h1) cell.recommended.sample_lt ?_
  calc 0 < w cell * cell.recommended.degree (standard.point (-1) 1 cell.recommended.sample) :=
        mul_pos hpos cell.recommended.degree_sample_pos
    _ ≤ blend w (standard.point (-1) 1 cell.recommended.sample) := le_blend h0 h1 cell

/-! ## §2. One term alone. -/

/-- The weights of the cells that recommend one term, and none for the others. -/
def only (d : DeltaTerm) (w : RuleCell → Rat) (cell : RuleCell) : Rat :=
  if cell.recommended = d then w cell else 0

/-- Each factor of the blend of one term depends on the degree in that term alone. -/
theorem only_mul_degree (d : DeltaTerm) (w : RuleCell → Rat) (cell : RuleCell) (x : Rat) :
    only d w cell * cell.recommended.degree x = only d w cell * d.degree x := by
  unfold only
  by_cases h : cell.recommended = d
  · rw [h]
  · rw [if_neg h, zero_mul, zero_mul]

theorem blend_only_reflect (d : DeltaTerm) (w : RuleCell → Rat) (x : Rat) :
    blend (only d w) (2 * d.apex - x) = blend (only d w) x := by
  unfold blend
  congr 2
  refine List.map_congr_left fun cell _ => ?_
  rw [only_mul_degree, only_mul_degree, DeltaTerm.degree_reflect]

/-- Twice the apex of a term, less a sample point, is the sample point that many places from
the first. -/
def DeltaTerm.mirror : DeltaTerm → Int
  | .bigDown => 89
  | .down => 174
  | .stay => 199
  | .up => 224
  | .bigUp => 309

/-- The grid is symmetric about the apex of every set. -/
theorem DeltaTerm.point_mirror (d : DeltaTerm) (i : Int) :
    standard.point (-1) 1 (d.mirror - i) = 2 * d.apex - standard.point (-1) 1 i := by
  rw [point_standard, point_standard]
  push_cast
  cases d <;> norm_num [DeltaTerm.mirror, DeltaTerm.apex] <;> ring

/-- Every set lies within the grid. -/
theorem DeltaTerm.mem_grid_of_degree_ne_zero {d : DeltaTerm} {i : Int}
    (h : d.degree (standard.point (-1) 1 i) ≠ 0) :
    0 ≤ i ∧ i < standard.resolution := by
  obtain ⟨hleft, hright⟩ := d.range_bounds
  obtain ⟨hl, hr⟩ := DeltaTerm.degree_pos_iff.mp (lt_of_le_of_ne (d.degree_nonneg _) (Ne.symm h))
  exact point_mem_grid (lt_of_le_of_lt hleft hl) (lt_of_lt_of_le hr hright)

/-- **One term alone balances at its apex.** -/
theorem lever_only_eq_zero (d : DeltaTerm) (w : RuleCell → Rat) :
    standard.lever (blend (only d w)) (-1) 1 d.apex = 0 := by
  -- Outside of the set of the term its blend vanishes.
  refine Centroid.lever_eq_zero d.point_mirror (blend_only_reflect d w) fun i hne =>
    DeltaTerm.mem_grid_of_degree_ne_zero (d := d) fun h => hne (blend_eq_zero fun cell => ?_)
  rw [only_mul_degree, h, mul_zero]

/-- The blend of one term is at most the whole blend. -/
theorem blend_only_le (h0 : ∀ cell, 0 ≤ w cell) (h1 : ∀ cell, w cell ≤ 1) (d : DeltaTerm)
    (x : Rat) : blend (only d w) x ≤ blend w x := by
  refine blend_mono h1 fun cell => ?_
  refine mul_le_mul_of_nonneg_right ?_ (DeltaTerm.degree_nonneg _ _)
  unfold only
  split_ifs
  · exact le_refl _
  · exact h0 cell

/-- Where the sets of all other terms end, the blend is that of the one term. -/
theorem blend_eq_only (h : ∀ cell, w cell ≠ 0 → cell.recommended = d
      ∨ cell.recommended.degree x = 0) : blend w x = blend (only d w) x := by
  refine blend_congr fun cell => ?_
  unfold only
  by_cases hterm : cell.recommended = d
  · rw [if_pos hterm]
  · rw [if_neg hterm, zero_mul]
    by_cases hzero : w cell = 0
    · rw [hzero, zero_mul]
    · rcases h cell hzero with hsame | hend
      · exact absurd hsame hterm
      · rw [hend, mul_zero]

/-! ## §3. Bounds of the centroid. -/

section Bounds

variable (h0 : ∀ cell, 0 ≤ w cell) (h1 : ∀ cell, w cell ≤ 1)
  (harea : 0 < standard.area (blend w) (-1) 1)

include h0 h1 harea

/-- **The rest lies to the right**: the centroid is at least the apex. -/
theorem apex_le_centroid
    (h : ∀ cell, w cell ≠ 0 → cell.recommended = d ∨ d.apex ≤ cell.recommended.left) :
    d.apex ≤ standard.centroid (blend w) (-1) 1 := by
  have hmono : standard.lever (blend (only d w)) (-1) 1 d.apex
      ≤ standard.lever (blend w) (-1) 1 d.apex := by
    -- Left of the apex the other sets have not begun; right of it they only add mass.
    refine Centroid.lever_mono (fun x hx => ?_) (fun x _ => blend_only_le h0 h1 d x)
    refine blend_eq_only fun cell hne => ?_
    exact (h cell hne).imp_right fun hleft => DeltaTerm.degree_of_le_left (hx.le.trans hleft)
  rw [lever_only_eq_zero] at hmono
  exact Centroid.le_centroid harea hmono

/-- **The rest lies to the left**: the centroid is at most the apex. -/
theorem centroid_le_apex
    (h : ∀ cell, w cell ≠ 0 → cell.recommended = d ∨ cell.recommended.right ≤ d.apex) :
    standard.centroid (blend w) (-1) 1 ≤ d.apex := by
  have hanti : standard.lever (blend w) (-1) 1 d.apex
      ≤ standard.lever (blend (only d w)) (-1) 1 d.apex := by
    -- Right of the apex the other sets have ended; left of it they only add mass.
    refine Centroid.lever_anti (fun x _ => blend_only_le h0 h1 d x) (fun x hx => ?_)
    refine blend_eq_only fun cell hne => ?_
    exact (h cell hne).imp_right fun hright => DeltaTerm.degree_of_right_le (hright.trans hx.le)
  rw [lever_only_eq_zero] at hanti
  exact Centroid.centroid_le harea hanti

/-- Sets that all begin at `p` or later balance to the right of `p`. -/
theorem lt_centroid_blend (h : ∀ cell, w cell ≠ 0 → p ≤ cell.recommended.left) :
    p < standard.centroid (blend w) (-1) 1 := by
  refine Centroid.lt_centroid harea (Centroid.lever_pos (blend_nonneg h0 h1) (fun x hx => ?_) harea)
  refine blend_eq_zero fun cell => ?_
  by_cases hzero : w cell = 0
  · rw [hzero, zero_mul]
  · rw [DeltaTerm.degree_of_le_left (hx.trans (h cell hzero)), mul_zero]

/-- Sets that all end at `p` or earlier balance to the left of `p`. -/
theorem centroid_blend_lt (h : ∀ cell, w cell ≠ 0 → cell.recommended.right ≤ p) :
    standard.centroid (blend w) (-1) 1 < p := by
  refine Centroid.centroid_lt harea (Centroid.lever_neg (blend_nonneg h0 h1) (fun x hx => ?_) harea)
  refine blend_eq_zero fun cell => ?_
  by_cases hzero : w cell = 0
  · rw [hzero, zero_mul]
  · rw [DeltaTerm.degree_of_right_le ((h cell hzero).trans hx), mul_zero]

end Bounds

end CapacityControl.Control
