/-
  CapacityControl.Proofs.Fuzzy.Similarity
  ───────────────────────────────────────
  SIMILAR SETS HAVE SIMILAR CENTRES, exactly.  The centre of mass is the one point about
  which there is no moment, and it lies within the points that have mass
  (`centroid_mem_support`).  A change of scale and origin takes the sample points to the
  sample points and moments to moments, so the centre goes along (`centroid_affine`); a
  reflection does the same with the points in the opposite order, and a set that is its own
  mirror image has its centre in the middle (`centroid_symmetric`).  Together, for what the
  midpoint rule computes: `centre_lawful`.
-/
import CapacityControl.Proofs.Fuzzy.Centre
import Mathlib.Data.Finset.Max
import Mathlib.Order.Interval.Set.Defs

namespace CapacityControl.Fuzzy

open Extended (finite)
open Finset (range)

namespace Centroid

variable {c : Centroid} {f g : Rat → Rat} {lo hi : Rat}

/-! ## §1. Where the mass is. -/

/-- The sample points at which a function is positive. -/
def support (c : Centroid) (f : Rat → Rat) (lo hi : Rat) : Finset Rat :=
  ((range c.resolution).image fun i : Nat => c.point lo hi i).filter (0 < f ·)

theorem mem_support {x : Rat} :
    x ∈ c.support f lo hi ↔ (∃ i : Nat, i < c.resolution ∧ c.point lo hi i = x) ∧ 0 < f x := by
  unfold support
  rw [Finset.mem_filter, Finset.mem_image]
  simp only [Finset.mem_range]

/-- Every sample point lies in the range. -/
theorem point_mem (hrange : lo ≤ hi) {i : Nat} (hi' : i < c.resolution) :
    c.point lo hi i ∈ Set.Icc lo hi := by
  have hcells : (0 : Rat) < c.resolution := by
    exact_mod_cast Nat.zero_lt_of_lt hi'
  have hnext : (i : Rat) + 1 ≤ c.resolution := by
    exact_mod_cast hi'
  have hfirst : (0 : Rat) ≤ i := Nat.cast_nonneg i
  -- How far along the range the point lies, as a fraction of it.
  have hpart : c.point lo hi i = lo + ((i : Rat) + 1 / 2) / c.resolution * (hi - lo) := by
    unfold point
    push_cast
    ring
  have hlow : 0 ≤ ((i : Rat) + 1 / 2) / c.resolution := by
    apply div_nonneg <;> linarith
  have hhigh : ((i : Rat) + 1 / 2) / c.resolution ≤ 1 := by
    rw [div_le_one hcells]
    linarith
  have hspan : 0 ≤ hi - lo := sub_nonneg.mpr hrange
  rw [hpart]
  constructor
  · linarith [mul_nonneg hlow hspan]
  · linarith [mul_le_mul_of_nonneg_right hhigh hspan]

section Mass

variable (hf : ∀ i : Nat, i < c.resolution → 0 ≤ f (c.point lo hi i))

include hf

theorem area_pos_of_ne {i : Nat} (hi' : i < c.resolution) (hne : f (c.point lo hi i) ≠ 0) :
    0 < c.area f lo hi := by
  refine Finset.sum_pos' (fun j hj => hf j (Finset.mem_range.mp hj)) ⟨i, ?_, ?_⟩
  · exact Finset.mem_range.mpr hi'
  · exact lt_of_le_of_ne (hf i hi') hne.symm

theorem support_nonempty {i : Nat} (hi' : i < c.resolution) (hne : f (c.point lo hi i) ≠ 0) :
    (c.support f lo hi).Nonempty :=
  ⟨_, mem_support.mpr ⟨⟨i, hi', rfl⟩, lt_of_le_of_ne (hf i hi') hne.symm⟩⟩

/-- **The centre of mass lies within the points that have mass**: those outside weigh nothing. -/
theorem centroid_mem_support (harea : 0 < c.area f lo hi) (hmass : (c.support f lo hi).Nonempty) :
    (c.support f lo hi).min' hmass ≤ c.centroid f lo hi
      ∧ c.centroid f lo hi ≤ (c.support f lo hi).max' hmass := by
  have hweigh : ∀ i ∈ range c.resolution,
      f (c.point lo hi i) = 0 ∨ (0 < f (c.point lo hi i) ∧ c.point lo hi i ∈ c.support f lo hi) := by
    intro i hi'
    have hin := Finset.mem_range.mp hi'
    rcases (hf i hin).eq_or_lt with hzero | hpos
    · exact Or.inl hzero.symm
    · exact Or.inr ⟨hpos, mem_support.mpr ⟨⟨i, hin, rfl⟩, hpos⟩⟩
  constructor
  · refine le_centroid harea (Finset.sum_nonneg fun i hi' => ?_)
    rcases hweigh i hi' with hzero | ⟨hpos, hmem⟩
    · rw [hzero, mul_zero]
    · exact mul_nonneg (sub_nonneg.mpr (Finset.min'_le _ _ hmem)) hpos.le
  · refine centroid_le harea (Finset.sum_nonpos fun i hi' => ?_)
    rcases hweigh i hi' with hzero | ⟨hpos, hmem⟩
    · rw [hzero, mul_zero]
    · exact mul_nonpos_of_nonpos_of_nonneg (sub_nonpos.mpr (Finset.le_max' _ _ hmem)) hpos.le

end Mass

/-! ## §2. Scale and origin. -/

/-- **The sample points go along** with a change of scale and origin. -/
theorem point_affine (c : Centroid) (lo hi a b : Rat) (i : Int) :
    c.point (a * lo + b) (a * hi + b) i = a * c.point lo hi i + b := by
  unfold point
  ring

section Affine

variable {a b : Rat} (h : ∀ x, g (a * x + b) = f x)

include h

theorem area_affine : c.area g (a * lo + b) (a * hi + b) = c.area f lo hi := by
  unfold area
  refine Finset.sum_congr rfl fun i _ => ?_
  rw [point_affine, h]

theorem lever_affine (p : Rat) :
    c.lever g (a * lo + b) (a * hi + b) (a * p + b) = a * c.lever f lo hi p := by
  unfold lever
  rw [Finset.mul_sum]
  refine Finset.sum_congr rfl fun i _ => ?_
  rw [point_affine, h]
  ring

/-- The centroid goes along as well. -/
theorem centroid_affine (harea : c.area f lo hi ≠ 0) :
    c.centroid g (a * lo + b) (a * hi + b) = a * c.centroid f lo hi + b := by
  -- There is no moment about the image of the centroid, and only the centroid is such a point.
  have hlever : c.lever g (a * lo + b) (a * hi + b) (a * c.centroid f lo hi + b)
      = a * c.lever f lo hi (c.centroid f lo hi) := lever_affine h _
  rw [lever_centroid harea, mul_zero, lever_eq, area_affine h, sub_eq_zero] at hlever
  unfold centroid
  rw [hlever, area_affine h, mul_div_assoc, div_self harea, mul_one]
  rfl

end Affine

/-! ## §3. Reflection. -/

/-- **A set that is its own mirror image** has its centre in the middle of the range. -/
theorem centroid_symmetric
    (h : ∀ i : Nat, i < c.resolution → f (c.point lo hi i) = f (lo + hi - c.point lo hi i))
    (harea : c.area f lo hi ≠ 0) : c.centroid f lo hi = (lo + hi) / 2 := by
  have hmirror := centroid_mirror h harea
  linarith

/-! ## §4. What the midpoint rule computes. -/

section Rule

variable {m : Extended → Extended} (hm : ∀ x, m (finite x) = finite (f x))

include hm

/-- **Scale and origin**: a set that is mapped, together with its range, has its centre mapped. -/
theorem centre_affine (c : Centroid) (lo hi : Rat) {a b : Rat} (ha : 0 < a) :
    c.centre (fun x => m ((x - finite b) / finite a)) (finite a * finite lo + finite b)
        (finite a * finite hi + finite b)
      = finite a * c.centre m (finite lo) (finite hi) + finite b := by
  have hmapped : ∀ x, m ((finite x - finite b) / finite a) = finite (f ((x - b) / a)) := by
    intro x
    rw [Extended.finite_sub, Extended.finite_div _ _ ha.ne', hm]
  have hback : ∀ x, f ((a * x + b - b) / a) = f x := by
    intro x
    rw [add_sub_cancel_right, mul_div_cancel_left₀ _ ha.ne']
  simp only [Extended.finite_mul, Extended.finite_add]
  rw [centre_finite c hmapped, centre_finite c hm,
    area_affine (g := fun x => f ((x - b) / a)) hback]
  by_cases harea : c.area f lo hi = 0
  · rw [if_pos harea, if_pos harea]
    rfl
  · rw [if_neg harea, if_neg harea,
      centroid_affine (g := fun x => f ((x - b) / a)) hback harea]
    simp only [Extended.finite_mul, Extended.finite_add]

/-- **Reflection**: a set that is reflected, together with its range, has its centre negated. -/
theorem centre_neg (c : Centroid) (lo hi : Rat) :
    c.centre (fun x => m (-x)) (-finite hi) (-finite lo)
      = -c.centre m (finite lo) (finite hi) := by
  have hmapped : ∀ x, m (-finite x) = finite (f (-x)) := by
    intro x
    rw [Extended.finite_neg, hm]
  -- The reflected range is the range itself, moved, and the set its mirror image there.
  have hmoved : ∀ x, f (-(1 * x + -(lo + hi))) = f (lo + hi - x) := by
    intro x
    exact congrArg f (by ring)
  have hlow : -hi = 1 * lo + -(lo + hi) := by ring
  have hhigh : -lo = 1 * hi + -(lo + hi) := by ring
  have hmirror : ∀ i : Nat, i < c.resolution →
      f (lo + hi - c.point lo hi i) = f (lo + hi - c.point lo hi i) := fun _ _ => rfl
  have hmass : c.area (fun x => f (-x)) (-hi) (-lo) = c.area f lo hi := by
    rw [hlow, hhigh, area_affine (g := fun x => f (-x)) hmoved,
      area_mirror (g := fun x => f (lo + hi - x)) hmirror]
  rw [Extended.finite_neg, Extended.finite_neg, centre_finite c hmapped, centre_finite c hm, hmass]
  by_cases harea : c.area f lo hi = 0
  · rw [if_pos harea, if_pos harea]
    rfl
  · have hreflected : c.area (fun x => f (lo + hi - x)) lo hi ≠ 0 := by
      rwa [area_mirror (g := fun x => f (lo + hi - x)) hmirror]
    rw [if_neg harea, if_neg harea, hlow, hhigh,
      centroid_affine (g := fun x => f (-x)) hmoved hreflected,
      centroid_mirror (g := fun x => f (lo + hi - x)) hmirror harea, Extended.finite_neg]
    exact congrArg finite (by ring)

/-- **Height** does not matter: a set that is scaled has the same centre. -/
theorem centre_mul (c : Centroid) (lo hi : Rat) {k : Rat} (hk : 0 < k) :
    c.centre (fun x => finite k * m x) (finite lo) (finite hi)
      = c.centre m (finite lo) (finite hi) := by
  have hscaled : ∀ x, finite k * m (finite x) = finite (k * f x) := by
    intro x
    rw [hm, Extended.finite_mul]
  rw [centre_finite c hscaled, centre_finite c hm, area_mul, centroid_mul c hk.ne']
  simp only [mul_eq_zero, hk.ne', false_or]

end Rule

/-! ## §5. The laws of the centre. -/

/-- **The laws of the centre** of a set over a range: it is undefined exactly for a set without
mass at the sample points and lies between the outermost of those that have mass; the height
of the set does not matter; and the centre goes along with scale, origin and reflection, so that
a set which is its own mirror image has its centre in the middle. -/
structure CentreLaws (c : Centroid) (m : Extended → Extended) (f : Rat → Rat) (lo hi : Rat) :
    Prop where
  undefined_iff : c.centre m (finite lo) (finite hi) = .nan
    ↔ ∀ i : Nat, i < c.resolution → f (c.point lo hi i) = 0
  between : (∃ i : Nat, i < c.resolution ∧ f (c.point lo hi i) ≠ 0) →
    ∃ (hmass : (c.support f lo hi).Nonempty) (q : Rat),
      c.centre m (finite lo) (finite hi) = finite q
        ∧ (c.support f lo hi).min' hmass ≤ q ∧ q ≤ (c.support f lo hi).max' hmass
  scaled : ∀ k : Rat, 0 < k → c.centre (fun x => finite k * m x) (finite lo) (finite hi)
    = c.centre m (finite lo) (finite hi)
  mapped : ∀ a b : Rat, 0 < a →
    c.centre (fun x => m ((x - finite b) / finite a)) (finite a * finite lo + finite b)
        (finite a * finite hi + finite b)
      = finite a * c.centre m (finite lo) (finite hi) + finite b
  reflected : c.centre (fun x => m (-x)) (-finite hi) (-finite lo)
    = -c.centre m (finite lo) (finite hi)
  symmetric : (∀ x ∈ Set.Icc lo hi, f (lo + hi - x) = f x) →
    (∃ i : Nat, i < c.resolution ∧ f (c.point lo hi i) ≠ 0) →
    c.centre m (finite lo) (finite hi) = finite ((lo + hi) / 2)

/-- **The midpoint rule keeps the laws of the centre**, in exact arithmetic, at every resolution
and over every range, for every set that is nowhere negative there. -/
theorem centre_lawful (c : Centroid) {m : Extended → Extended} {f : Rat → Rat}
    (hm : ∀ x, m (finite x) = finite (f x)) {lo hi : Rat} (hrange : lo < hi)
    (hf : ∀ x ∈ Set.Icc lo hi, 0 ≤ f x) : CentreLaws c m f lo hi := by
  have hpoints : ∀ i : Nat, i < c.resolution → 0 ≤ f (c.point lo hi i) :=
    fun i hi' => hf _ (point_mem hrange.le hi')
  have hdefined : ∀ i : Nat, i < c.resolution → f (c.point lo hi i) ≠ 0 →
      0 < c.area f lo hi
        ∧ c.centre m (finite lo) (finite hi) = finite (c.centroid f lo hi) := by
    intro i hi' hne
    have harea := area_pos_of_ne hpoints hi' hne
    refine ⟨harea, ?_⟩
    rw [centre_finite c hm, if_neg harea.ne']
  refine ⟨?_, ?_, fun k hk => centre_mul hm c lo hi hk, fun a b ha => centre_affine hm c lo hi ha,
    centre_neg hm c lo hi, ?_⟩
  · rw [← area_eq_zero_iff hpoints, centre_finite c hm]
    by_cases harea : c.area f lo hi = 0
    · simp only [harea, if_true]
    · rw [if_neg harea]
      exact iff_of_false (fun h => by cases h) harea
  · rintro ⟨i, hi', hne⟩
    obtain ⟨harea, hcentre⟩ := hdefined i hi' hne
    have hmass := support_nonempty hpoints hi' hne
    exact ⟨hmass, _, hcentre, centroid_mem_support hpoints harea hmass⟩
  · rintro hsymm ⟨i, hi', hne⟩
    obtain ⟨harea, hcentre⟩ := hdefined i hi' hne
    rw [hcentre, centroid_symmetric
      (fun j hj => (hsymm _ (point_mem hrange.le hj)).symm) harea.ne']

/-- A parabola over four cells of `[0, 2]`: its centre is `31/21`, so it is `38/7` after
stretching by three and moving by one, and `-31/21` in the mirror. -/
theorem centre_lawful_parabola :
    (0 : Rat) < 2 ∧ (∀ x ∈ Set.Icc (0 : Rat) 2, 0 ≤ x * x)
      ∧ (⟨4⟩ : Centroid).centre (fun x => x * x) (finite 0) (finite 2) = finite (31 / 21)
      ∧ (⟨4⟩ : Centroid).centre (fun x => (x - finite 1) / finite 3 * ((x - finite 1) / finite 3))
          (finite 1) (finite 7) = finite (38 / 7)
      ∧ (⟨4⟩ : Centroid).centre (fun x => -x * -x) (finite (-2)) (finite 0)
          = finite (-(31 / 21)) := by
  have hsquare : ∀ x : Rat, (finite x : Extended) * finite x = finite (x * x) :=
    fun x => Extended.finite_mul x x
  have hlaws := centre_lawful ⟨4⟩ (m := fun x => x * x) hsquare (by norm_num : (0 : Rat) < 2)
    fun x _ => mul_self_nonneg x
  have hcentre : (⟨4⟩ : Centroid).centre (fun x => x * x) (finite 0) (finite 2)
      = finite (31 / 21) := by
    rw [centre_finite ⟨4⟩ hsquare]
    norm_num [area, centroid, lever, point, Finset.sum_range_succ]
  have hmapped := hlaws.mapped 3 1 (by norm_num)
  have hreflected := hlaws.reflected
  rw [hcentre] at hmapped hreflected
  norm_num at hmapped hreflected
  exact ⟨by norm_num, fun x _ => mul_self_nonneg x, hcentre, hmapped, hreflected⟩

end Centroid

end CapacityControl.Fuzzy
