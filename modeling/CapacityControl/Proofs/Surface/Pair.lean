/-
  CapacityControl.Proofs.Surface.Pair
  ───────────────────────────────────
  TWO CHANGES AT ONCE.  Along most lines through the rule table only two sets take part,
  an upper one with weight `a` and a lower one with weight `b`.  Their blend balances
  between the two apexes (`pair_bounds`), and it moves up when the upper set gains weight
  or the lower one loses some (`pair_mono`, `pair_lt_of_upper`, `pair_lt_of_lower`).  What
  one set adds is the part of it that the other leaves, and that part leans away from the
  other set, however the two overlap.
-/
import CapacityControl.Proofs.Surface.Balance

namespace CapacityControl.Control

open Fuzzy
open Centroid (standard)

variable {x y p a a' b b' : Rat}

/-! ## §1. One set. -/

namespace DeltaTerm

variable {d : DeltaTerm}

/-- A set alone balances at its apex. -/
theorem lever_degree (d : DeltaTerm) : standard.lever d.degree (-1) 1 d.apex = 0 :=
  Centroid.lever_eq_zero d.point_mirror d.degree_reflect fun _ => mem_grid_of_degree_ne_zero

/-- The degrees of a set at all sample points together. -/
def mass : DeltaTerm → Rat
  | bigDown | bigUp => 45
  | down | up => 113 / 15
  | stay => 10

theorem area_degree (d : DeltaTerm) : standard.area d.degree (-1) 1 = d.mass := by
  cases d <;> decide +kernel

/-- The moment of a set is that of its mass at its apex. -/
theorem lever_degree_at (d : DeltaTerm) (p : Rat) :
    standard.lever d.degree (-1) 1 p = (d.apex - p) * d.mass := by
  rw [Centroid.lever_shift standard _ (-1) 1 d.apex p, lever_degree, area_degree, zero_add]

/-- The degree falls with the distance from the apex. -/
theorem degree_le_of_dist (h : |y - d.apex| ≤ |x - d.apex|) : d.degree x ≤ d.degree y := by
  -- Both points may be taken to lie right of the apex.
  have hright (z : Rat) : d.degree z = d.degree (d.apex + |z - d.apex|) := by
    rcases abs_cases (z - d.apex) with ⟨habs, _⟩ | ⟨habs, _⟩
    · rw [habs, add_sub_cancel]
    · rw [habs, ← degree_reflect]
      congr 1
      ring
  rw [hright x, hright y]
  exact Shape.triangle_degree_anti d.left_lt_apex.le d.apex_lt_right.le (by linarith)
    (by linarith [abs_nonneg (y - d.apex)])

/-- Only the apex belongs to a set wholly. -/
theorem degree_lt_one (h : x ≠ d.apex) : d.degree x < 1 := by
  have hrise : 0 < d.apex - d.left := by linarith [d.left_lt_apex]
  have hfall : 0 < d.right - d.apex := by linarith [d.apex_lt_right]
  have heq : d.degree x = _ := Shape.triangle_degree_eq d.left_lt_apex d.apex_lt_right
  rw [heq, max_lt_iff, min_lt_iff, div_lt_one hrise, div_lt_one hfall]
  refine ⟨zero_lt_one, ?_⟩
  rcases lt_or_gt_of_ne h with hx | hx
  · exact Or.inl (by linarith)
  · exact Or.inr (by linarith)

end DeltaTerm

/-! ## §2. What another set leaves of one. -/

/-- The part of a set that another one with a weight leaves. -/
def apart (d e : DeltaTerm) (b x : Rat) : Rat := d.degree x * (1 - b * e.degree x)

section Apart

variable {d e : DeltaTerm}

theorem apart_nonneg (hb : b ≤ 1) (x : Rat) : 0 ≤ apart d e b x := by
  have hle : b * e.degree x ≤ 1 := mul_le_one₀ hb (e.degree_nonneg x) (e.degree_le_one x)
  exact mul_nonneg (d.degree_nonneg x) (by linarith)

theorem apart_le_degree (hb : 0 ≤ b) (x : Rat) : apart d e b x ≤ d.degree x := by
  have hmore := mul_nonneg hb (e.degree_nonneg x)
  exact mul_le_of_le_one_right (d.degree_nonneg x) (by linarith)

/-- The more the other set weighs, the less it leaves. -/
theorem apart_le_apart (h : b ≤ b') (x : Rat) : apart d e b' x ≤ apart d e b x := by
  have hmore := mul_le_mul_of_nonneg_right h (e.degree_nonneg x)
  exact mul_le_mul_of_nonneg_left (by linarith) (d.degree_nonneg x)

theorem area_apart_nonneg (hb : b ≤ 1) : 0 ≤ standard.area (apart d e b) (-1) 1 :=
  Finset.sum_nonneg fun _ _ => apart_nonneg hb _

/-- The other set leaves some of it, unless both are the same. -/
theorem area_apart_pos (hne : d ≠ e) (hb : b ≤ 1) :
    0 < standard.area (apart d e b) (-1) 1 := by
  refine Centroid.area_pos (apart_nonneg hb) d.sample_lt ?_
  have hsample : standard.point (-1) 1 d.sample ≠ e.apex := by
    rw [point_standard]
    cases d <;> cases e <;>
      first | exact absurd rfl hne | norm_num [DeltaTerm.sample, DeltaTerm.apex]
  have hlt : b * e.degree (standard.point (-1) 1 d.sample) < 1 :=
    (mul_le_of_le_one_left (e.degree_nonneg _) hb).trans_lt (DeltaTerm.degree_lt_one hsample)
  exact mul_pos d.degree_sample_pos (by linarith)

variable {upper lower : DeltaTerm} (horder : lower.apex < upper.apex)

include horder

/-- **What the lower set leaves of the upper one** leans to the right. -/
theorem lever_apart_upper (hb0 : 0 ≤ b) (hb : b ≤ 1) (hp : p ≤ upper.apex) :
    0 ≤ standard.lever (apart upper lower b) (-1) 1 p := by
  have hapex : 0 ≤ standard.lever (apart upper lower b) (-1) 1 upper.apex := by
    refine Centroid.lever_mul_nonneg upper.point_mirror upper.degree_reflect
      upper.degree_nonneg (fun _ => DeltaTerm.mem_grid_of_degree_ne_zero) fun x hx => ?_
    -- Right of the upper apex the lower set has a smaller degree than at the mirror image.
    have hdist : lower.degree x ≤ lower.degree (2 * upper.apex - x) := by
      refine DeltaTerm.degree_le_of_dist ?_
      rw [abs_le, abs_of_nonneg (by linarith : 0 ≤ x - lower.apex)]
      constructor <;> linarith
    linarith [mul_le_mul_of_nonneg_left hdist hb0]
  rw [Centroid.lever_shift standard _ (-1) 1 upper.apex p]
  exact add_nonneg hapex (mul_nonneg (by linarith) (area_apart_nonneg hb))

/-- **What the upper set leaves of the lower one** leans to the left. -/
theorem lever_apart_lower (ha0 : 0 ≤ a) (ha : a ≤ 1) (hp : lower.apex ≤ p) :
    standard.lever (apart lower upper a) (-1) 1 p ≤ 0 := by
  have hapex : standard.lever (apart lower upper a) (-1) 1 lower.apex ≤ 0 := by
    refine Centroid.lever_mul_nonpos lower.point_mirror lower.degree_reflect
      lower.degree_nonneg (fun _ => DeltaTerm.mem_grid_of_degree_ne_zero) fun x hx => ?_
    have hdist : upper.degree (2 * lower.apex - x) ≤ upper.degree x := by
      refine DeltaTerm.degree_le_of_dist ?_
      rw [abs_sub_comm (2 * lower.apex - x),
        abs_of_nonneg (by linarith : 0 ≤ upper.apex - (2 * lower.apex - x)), abs_le]
      constructor <;> linarith
    linarith [mul_le_mul_of_nonneg_left hdist ha0]
  rw [Centroid.lever_shift standard _ (-1) 1 lower.apex p]
  exact add_nonpos hapex (mul_nonpos_of_nonpos_of_nonneg (by linarith) (area_apart_nonneg ha))

theorem lever_apart_upper_pos (hb0 : 0 ≤ b) (hb : b ≤ 1) (hp : p < upper.apex) :
    0 < standard.lever (apart upper lower b) (-1) 1 p := by
  have hne : upper ≠ lower := fun h => horder.ne (h ▸ rfl)
  rw [Centroid.lever_shift standard _ (-1) 1 upper.apex p]
  exact add_pos_of_nonneg_of_pos (lever_apart_upper horder hb0 hb le_rfl)
    (mul_pos (by linarith) (area_apart_pos hne hb))

theorem lever_apart_lower_neg (ha0 : 0 ≤ a) (ha : a ≤ 1) (hp : lower.apex < p) :
    standard.lever (apart lower upper a) (-1) 1 p < 0 := by
  have hne : lower ≠ upper := fun h => horder.ne (h ▸ rfl)
  rw [Centroid.lever_shift standard _ (-1) 1 lower.apex p]
  exact add_neg_of_nonpos_of_neg (lever_apart_lower horder ha0 ha le_rfl)
    (mul_neg_of_neg_of_pos (by linarith) (area_apart_pos hne ha))

end Apart

/-! ## §3. Pairs. -/

/-- The blend of two sets with weights. -/
def pair (a : Rat) (upper : DeltaTerm) (b : Rat) (lower : DeltaTerm) (x : Rat) : Rat :=
  1 - (1 - a * upper.degree x) * (1 - b * lower.degree x)

/-- The change at which two sets with weights balance. -/
def pairChange (a : Rat) (upper : DeltaTerm) (b : Rat) (lower : DeltaTerm) : Rat :=
  standard.centroid (pair a upper b lower) (-1) 1

section Pair

variable {upper lower : DeltaTerm}

/-- A pair is its upper set, and what that leaves of the lower one. -/
theorem pair_eq_upper (a : Rat) (upper : DeltaTerm) (b : Rat) (lower : DeltaTerm) (x : Rat) :
    pair a upper b lower x = a * upper.degree x + b * apart lower upper a x := by
  unfold pair apart
  ring

/-- A pair is its lower set, and what that leaves of the upper one. -/
theorem pair_eq_lower (a : Rat) (upper : DeltaTerm) (b : Rat) (lower : DeltaTerm) (x : Rat) :
    pair a upper b lower x = b * lower.degree x + a * apart upper lower b x := by
  unfold pair apart
  ring

/-- The upper set adds what the lower one leaves of it. -/
theorem pair_add_upper (a a' : Rat) (upper : DeltaTerm) (b : Rat) (lower : DeltaTerm) (x : Rat) :
    pair a' upper b lower x = pair a upper b lower x + (a' - a) * apart upper lower b x := by
  rw [pair_eq_lower, pair_eq_lower]
  ring

/-- The lower set adds what the upper one leaves of it. -/
theorem pair_add_lower (a : Rat) (upper : DeltaTerm) (b b' : Rat) (lower : DeltaTerm) (x : Rat) :
    pair a upper b' lower x = pair a upper b lower x + (b' - b) * apart lower upper a x := by
  rw [pair_eq_upper, pair_eq_upper]
  ring

/-- The moment of a pair about the apex of its lower set is what the upper one adds. -/
theorem lever_pair_lower (a : Rat) (upper : DeltaTerm) (b : Rat) (lower : DeltaTerm) :
    standard.lever (pair a upper b lower) (-1) 1 lower.apex
      = a * standard.lever (apart upper lower b) (-1) 1 lower.apex := by
  rw [funext (pair_eq_lower a upper b lower), Centroid.lever_add, Centroid.lever_mul,
    Centroid.lever_mul, lower.lever_degree, mul_zero, zero_add]

/-- The moment of a pair about the apex of its upper set is what the lower one adds. -/
theorem lever_pair_upper (a : Rat) (upper : DeltaTerm) (b : Rat) (lower : DeltaTerm) :
    standard.lever (pair a upper b lower) (-1) 1 upper.apex
      = b * standard.lever (apart lower upper a) (-1) 1 upper.apex := by
  rw [funext (pair_eq_upper a upper b lower), Centroid.lever_add, Centroid.lever_mul,
    Centroid.lever_mul, upper.lever_degree, mul_zero, zero_add]

/-- Weights of an upper and a lower set. -/
structure Weights (a b : Rat) : Prop where
  upper_nonneg : 0 ≤ a
  upper_le : a ≤ 1
  lower_nonneg : 0 ≤ b
  lower_le : b ≤ 1

theorem Weights.upper_le_pair (h : Weights a b) (upper lower : DeltaTerm) (x : Rat) :
    a * upper.degree x ≤ pair a upper b lower x := by
  have hrest := mul_nonneg h.lower_nonneg (apart_nonneg (d := lower) (e := upper) h.upper_le x)
  rw [pair_eq_upper]
  linarith

theorem Weights.lower_le_pair (h : Weights a b) (upper lower : DeltaTerm) (x : Rat) :
    b * lower.degree x ≤ pair a upper b lower x := by
  have hrest := mul_nonneg h.upper_nonneg (apart_nonneg (d := upper) (e := lower) h.lower_le x)
  rw [pair_eq_lower]
  linarith

theorem Weights.pair_nonneg (h : Weights a b) (upper lower : DeltaTerm) (x : Rat) :
    0 ≤ pair a upper b lower x :=
  (mul_nonneg h.upper_nonneg (upper.degree_nonneg x)).trans (h.upper_le_pair upper lower x)

theorem Weights.pair_le_one (h : Weights a b) (upper lower : DeltaTerm) (x : Rat) :
    pair a upper b lower x ≤ 1 := by
  have hupper := mul_le_one₀ h.upper_le (upper.degree_nonneg x) (upper.degree_le_one x)
  have hlower := mul_le_one₀ h.lower_le (lower.degree_nonneg x) (lower.degree_le_one x)
  have hproduct := mul_nonneg (sub_nonneg.mpr hupper) (sub_nonneg.mpr hlower)
  unfold pair
  linarith

theorem Weights.pair_le_add (h : Weights a b) (upper lower : DeltaTerm) (x : Rat) :
    pair a upper b lower x ≤ a * upper.degree x + b * lower.degree x := by
  have hproduct := mul_nonneg (mul_nonneg h.upper_nonneg (upper.degree_nonneg x))
    (mul_nonneg h.lower_nonneg (lower.degree_nonneg x))
  unfold pair
  linarith

/-- With larger weights a pair is nowhere less. -/
theorem pair_le_pair (h : Weights a b) (h' : Weights a' b') (haa : a ≤ a') (hbb : b ≤ b')
    (x : Rat) : pair a upper b lower x ≤ pair a' upper b' lower x := by
  have hupper := mul_nonneg (sub_nonneg.mpr haa)
    (apart_nonneg (d := upper) (e := lower) h.lower_le x)
  have hlower := mul_nonneg (sub_nonneg.mpr hbb)
    (apart_nonneg (d := lower) (e := upper) h'.upper_le x)
  rw [pair_add_lower a' upper b b', pair_add_upper a a' upper b]
  linarith

/-- Weights of which not both are zero. -/
structure SomeWeights (a b : Rat) : Prop extends Weights a b where
  some_pos : 0 < a + b

/-- A pair that weighs something has mass. -/
theorem SomeWeights.area_pos (h : SomeWeights a b) (upper lower : DeltaTerm) :
    0 < standard.area (pair a upper b lower) (-1) 1 := by
  rcases h.upper_nonneg.lt_or_eq with ha | ha
  · exact Centroid.area_pos (h.pair_nonneg upper lower) upper.sample_lt
      ((mul_pos ha upper.degree_sample_pos).trans_le (h.upper_le_pair upper lower _))
  · have hb : 0 < b := by linarith [h.some_pos]
    exact Centroid.area_pos (h.pair_nonneg upper lower) lower.sample_lt
      ((mul_pos hb lower.degree_sample_pos).trans_le (h.lower_le_pair upper lower _))

/-- One set alone comes to its apex. -/
theorem pairChange_zero_upper (upper lower : DeltaTerm) (hb0 : 0 < b) (hb : b ≤ 1) :
    pairChange 0 upper b lower = lower.apex := by
  have harea := SomeWeights.area_pos ⟨⟨le_rfl, zero_le_one, hb0.le, hb⟩, by linarith⟩ upper lower
  have hlever : standard.lever (pair 0 upper b lower) (-1) 1 lower.apex = 0 := by
    rw [lever_pair_lower, zero_mul]
  exact le_antisymm (Centroid.centroid_le harea hlever.le) (Centroid.le_centroid harea hlever.ge)

variable (horder : lower.apex < upper.apex)

include horder

/-- **A pair balances between the apexes** of its sets. -/
theorem pair_bounds (h : SomeWeights a b) :
    lower.apex ≤ pairChange a upper b lower ∧ pairChange a upper b lower ≤ upper.apex := by
  have harea := h.area_pos upper lower
  refine ⟨Centroid.le_centroid harea ?_, Centroid.centroid_le harea ?_⟩
  · rw [lever_pair_lower]
    exact mul_nonneg h.upper_nonneg
      (lever_apart_upper horder h.lower_nonneg h.lower_le horder.le)
  · rw [lever_pair_upper]
    exact mul_nonpos_of_nonneg_of_nonpos h.lower_nonneg
      (lever_apart_lower horder h.upper_nonneg h.upper_le horder.le)

/-- With both sets a pair balances strictly between the apexes. -/
theorem pair_strict_bounds (h : SomeWeights a b) (ha : 0 < a) (hb : 0 < b) :
    lower.apex < pairChange a upper b lower ∧ pairChange a upper b lower < upper.apex := by
  have harea := h.area_pos upper lower
  refine ⟨Centroid.lt_centroid harea ?_, Centroid.centroid_lt harea ?_⟩
  · rw [lever_pair_lower]
    exact mul_pos ha (lever_apart_upper_pos horder h.lower_nonneg h.lower_le horder)
  · rw [lever_pair_upper]
    exact mul_neg_of_pos_of_neg hb (lever_apart_lower_neg horder h.upper_nonneg h.upper_le horder)

/-- More of the upper set moves the change up. -/
theorem pair_mono_upper (h : SomeWeights a b) (haa : a ≤ a') (ha' : a' ≤ 1) :
    pairChange a upper b lower ≤ pairChange a' upper b lower := by
  have h' : SomeWeights a' b :=
    ⟨⟨h.upper_nonneg.trans haa, ha', h.lower_nonneg, h.lower_le⟩, by linarith [h.some_pos]⟩
  exact Centroid.centroid_le_centroid (h.area_pos upper lower) (h'.area_pos upper lower)
    (pair_add_upper a a' upper b lower) (by linarith)
    (lever_apart_upper horder h.lower_nonneg h.lower_le (pair_bounds horder h).2)

/-- More of the lower set moves the change down. -/
theorem pair_anti_lower (h : SomeWeights a b) (hbb : b ≤ b') (hb' : b' ≤ 1) :
    pairChange a upper b' lower ≤ pairChange a upper b lower := by
  have h' : SomeWeights a b' :=
    ⟨⟨h.upper_nonneg, h.upper_le, h.lower_nonneg.trans hbb, hb'⟩, by linarith [h.some_pos]⟩
  exact Centroid.centroid_ge_centroid (h.area_pos upper lower) (h'.area_pos upper lower)
    (pair_add_lower a upper b b' lower) (by linarith)
    (lever_apart_lower horder h.upper_nonneg h.upper_le (pair_bounds horder h).1)

/-- **A pair moves up** with more of its upper and less of its lower set. -/
theorem pair_mono (h : SomeWeights a b) (h' : SomeWeights a' b') (haa : a ≤ a') (hbb : b' ≤ b) :
    pairChange a upper b lower ≤ pairChange a' upper b' lower :=
  (pair_mono_upper horder h haa h'.upper_le).trans (pair_anti_lower horder h' hbb h.lower_le)

/-- Next to some of the lower set, more of the upper one moves the change strictly up. -/
theorem pair_lt_of_upper (h : SomeWeights a b) (hb : 0 < b) (ha : 0 < a) (haa : a < a')
    (ha' : a' ≤ 1) : pairChange a upper b lower < pairChange a' upper b lower := by
  have h' : SomeWeights a' b :=
    ⟨⟨h.upper_nonneg.trans haa.le, ha', h.lower_nonneg, h.lower_le⟩, by linarith [h.some_pos]⟩
  exact Centroid.centroid_lt_centroid (h.area_pos upper lower) (h'.area_pos upper lower)
    (pair_add_upper a a' upper b lower) (by linarith)
    (lever_apart_upper_pos horder h.lower_nonneg h.lower_le (pair_strict_bounds horder h ha hb).2)

/-- Next to some of the upper set, more of the lower one moves the change strictly down. -/
theorem pair_lt_of_lower (h : SomeWeights a b) (ha : 0 < a) (hb : 0 < b) (hbb : b < b')
    (hb' : b' ≤ 1) : pairChange a upper b' lower < pairChange a upper b lower := by
  have h' : SomeWeights a b' :=
    ⟨⟨h.upper_nonneg, h.upper_le, h.lower_nonneg.trans hbb.le, hb'⟩, by linarith [h.some_pos]⟩
  exact Centroid.centroid_gt_centroid (h.area_pos upper lower) (h'.area_pos upper lower)
    (pair_add_lower a upper b b' lower) (by linarith)
    (lever_apart_lower_neg horder h.upper_nonneg h.upper_le (pair_strict_bounds horder h ha hb).1)

end Pair

/-! ## §4. Both sets losing weight. -/

/-- How much of a change belongs to two terms at once. -/
def shared (d e : DeltaTerm) (x : Rat) : Rat := d.degree x * e.degree x

theorem lever_pair (a : Rat) (upper : DeltaTerm) (b : Rat) (lower : DeltaTerm) (p : Rat) :
    standard.lever (pair a upper b lower) (-1) 1 p
      = a * standard.lever upper.degree (-1) 1 p + b * standard.lever lower.degree (-1) 1 p
        - a * b * standard.lever (shared upper lower) (-1) 1 p := by
  have hsum : pair a upper b lower
      = fun x => (a * upper.degree x + b * lower.degree x) + -(a * b) * shared upper lower x := by
    funext x
    unfold pair shared
    ring
  rw [hsum, Centroid.lever_add, Centroid.lever_add, Centroid.lever_mul, Centroid.lever_mul,
    Centroid.lever_mul]
  ring

/-- What two sets gain together when the lower one gains `r` times as much as the upper one. -/
def gained (r : Rat) (upper lower : DeltaTerm) (s x : Rat) : Rat :=
  upper.degree x + r * lower.degree x - s * shared upper lower x

theorem lever_gained (r : Rat) (upper lower : DeltaTerm) (s p : Rat) :
    standard.lever (gained r upper lower s) (-1) 1 p
      = standard.lever upper.degree (-1) 1 p + r * standard.lever lower.degree (-1) 1 p
        - s * standard.lever (shared upper lower) (-1) 1 p := by
  have hsum : gained r upper lower s
      = fun x => (upper.degree x + r * lower.degree x) + -s * shared upper lower x := by
    funext x
    unfold gained
    ring
  rw [hsum, Centroid.lever_add, Centroid.lever_add, Centroid.lever_mul, Centroid.lever_mul]
  ring

theorem shared_nonneg (d e : DeltaTerm) (x : Rat) : 0 ≤ shared d e x :=
  mul_nonneg (d.degree_nonneg x) (e.degree_nonneg x)

/-- What two sets have in common is not counted more often than the lower one gains. -/
theorem upper_le_gained {r s : Rat} (hr : 0 ≤ r) (hs : s ≤ r) (upper lower : DeltaTerm) (x : Rat) :
    upper.degree x ≤ gained r upper lower s x := by
  have hshared : shared upper lower x ≤ lower.degree x :=
    mul_le_of_le_one_left (lower.degree_nonneg x) (upper.degree_le_one x)
  have hcount : s * shared upper lower x ≤ r * lower.degree x :=
    mul_le_mul hs hshared (shared_nonneg _ _ _) hr
  unfold gained
  linarith

theorem lower_le_gained {s : Rat} (hs : s ≤ 1) (upper lower : DeltaTerm) (x : Rat) :
    lower.degree x ≤ gained 1 upper lower s x := by
  have hshared : shared upper lower x ≤ upper.degree x :=
    mul_le_of_le_one_right (upper.degree_nonneg x) (lower.degree_le_one x)
  have hcount := mul_le_mul_of_nonneg_right hs (shared_nonneg upper lower x)
  unfold gained
  linarith

theorem area_gained_nonneg {r s : Rat} (hr : 0 ≤ r) (hs : s ≤ r) (upper lower : DeltaTerm) :
    0 ≤ standard.area (gained r upper lower s) (-1) 1 :=
  Finset.sum_nonneg fun _ _ =>
    (upper.degree_nonneg _).trans (upper_le_gained hr hs upper lower _)

/-- A point that separates a pair from what it gains, with a bound of the moment that the two
sets have in common about it. -/
structure Pivot (upper lower : DeltaTerm) (p m : Rat) : Prop where
  shared_le : |standard.lever (shared upper lower) (-1) 1 p| ≤ m
  pair_left : standard.lever upper.degree (-1) 1 p + 6 * standard.lever lower.degree (-1) 1 p + m
    ≤ 0
  gain_right : 4 / 3 * m
    ≤ standard.lever upper.degree (-1) 1 p + 2 * standard.lever lower.degree (-1) 1 p

namespace Pivot

variable {upper lower : DeltaTerm} {m : Rat} (h : Pivot upper lower p m)

include h

theorem bound_nonneg : 0 ≤ m := (abs_nonneg _).trans h.shared_le

/-- What the two sets have in common counts for at most its bound. -/
theorem mul_shared_le {s r : Rat} (hs0 : 0 ≤ s) (hs : s ≤ r) :
    |s * standard.lever (shared upper lower) (-1) 1 p| ≤ r * m := by
  rw [abs_mul, abs_of_nonneg hs0]
  exact mul_le_mul hs h.shared_le (abs_nonneg _) (hs0.trans hs)

/-- The pair lies left of the pivot. -/
theorem lever_pair_nonpos (ha0 : 0 ≤ a) (ha : a ≤ 1 / 6) :
    standard.lever (pair a upper (2 / 3 + 2 * a) lower) (-1) 1 p ≤ 0 := by
  have hproduct : a * (2 / 3 + 2 * a) ≤ 1 / 6 * 1 :=
    mul_le_mul ha (by linarith) (by linarith) (by norm_num)
  have hshared := neg_le_of_abs_le
    (h.mul_shared_le (mul_nonneg ha0 (by linarith)) hproduct)
  have hgain := mul_le_mul_of_nonneg_right ha
    ((mul_nonneg (by norm_num) h.bound_nonneg).trans h.gain_right)
  rw [lever_pair]
  linarith [h.pair_left]

/-- What is gained lies right of the pivot. -/
theorem lever_gained_nonneg {s : Rat} (hs0 : 0 ≤ s) (hs : s ≤ 4 / 3) :
    0 ≤ standard.lever (gained 2 upper lower s) (-1) 1 p := by
  have hshared := le_of_abs_le (h.mul_shared_le hs0 hs)
  rw [lever_gained]
  linarith [h.gain_right]

/-- **Both sets gain weight**, the lower one `2/3` in advance and twice as fast: what they gain
lies further up than what they have, so the change moves up. -/
theorem line_mono (ha0 : 0 ≤ a) (haa : a ≤ a') (ha' : a' ≤ 1 / 6) :
    pairChange a upper (2 / 3 + 2 * a) lower ≤ pairChange a' upper (2 / 3 + 2 * a') lower := by
  have harea (c : Rat) (h0 : 0 ≤ c) (h1 : c ≤ 1 / 6) :
      0 < standard.area (pair c upper (2 / 3 + 2 * c) lower) (-1) 1 :=
    SomeWeights.area_pos ⟨⟨h0, by linarith, by linarith, by linarith⟩, by linarith⟩ upper lower
  refine Centroid.centroid_le_of_pivot (harea a ha0 (haa.trans ha')) (harea a' (ha0.trans haa) ha')
    (m := gained 2 upper lower (2 / 3 + 2 * (a + a'))) (k := a' - a) (fun x => ?_)
    (by linarith) (h.lever_pair_nonpos ha0 (haa.trans ha'))
    (h.lever_gained_nonneg (by linarith) (by linarith))
    (area_gained_nonneg (by norm_num) (by linarith) upper lower)
  unfold pair gained shared
  ring

end Pivot

/-- The first two cells of every column have a pivot. -/
theorem exists_pivot (u : ErrorTerm) :
    ∃ p m, Pivot (recommended .negative u) (recommended .adequate u) p m := by
  cases u with
  | low =>
    refine ⟨2 / 5, 1 / 8, by decide +kernel, ?_, ?_⟩ <;>
      norm_num [recommended, DeltaTerm.lever_degree_at, DeltaTerm.apex, DeltaTerm.mass]
  | fine =>
    refine ⟨1 / 50, 1 / 60, by decide +kernel, ?_, ?_⟩ <;>
      norm_num [recommended, DeltaTerm.lever_degree_at, DeltaTerm.apex, DeltaTerm.mass]
  | high =>
    refine ⟨-1 / 20, 0, by decide +kernel, ?_, ?_⟩ <;>
      norm_num [recommended, DeltaTerm.lever_degree_at, DeltaTerm.apex, DeltaTerm.mass]

/-! ## §5. Equal weights. -/

section Same

variable {upper lower : DeltaTerm}

/-- The change of a pair of equal weights is that of its two sets, with what they have in common
counted less by the weight. -/
theorem pairChange_same (hb : b ≠ 0) (upper lower : DeltaTerm) :
    pairChange b upper b lower = standard.centroid (gained 1 upper lower b) (-1) 1 := by
  have hscaled : pair b upper b lower = fun x => b * gained 1 upper lower b x := by
    funext x
    unfold pair gained shared
    ring
  unfold pairChange
  rw [hscaled, Centroid.centroid_mul standard hb]

theorem area_gained_pos (hb : b ≤ 1) : 0 < standard.area (gained 1 upper lower b) (-1) 1 :=
  (Centroid.area_pos upper.degree_nonneg upper.sample_lt upper.degree_sample_pos).trans_le
    (Finset.sum_le_sum fun _ _ => upper_le_gained zero_le_one hb _ _ _)

theorem gained_eq_add (upper lower : DeltaTerm) (b b' x : Rat) :
    gained 1 upper lower b x = gained 1 upper lower b' x + (b' - b) * shared upper lower x := by
  unfold gained
  ring

theorem area_shared_nonneg : 0 ≤ standard.area (shared upper lower) (-1) 1 :=
  Finset.sum_nonneg fun _ _ => shared_nonneg _ _ _

end Same

/-- What `up` and `stay` have in common lies right of `3/50`. -/
theorem lever_shared_up_stay : 0 < standard.lever (shared .up .stay) (-1) 1 (3 / 50) := by
  decide +kernel

/-- **More of `up` and `stay` alike** moves the change down, since what they have in common, which
the blend counts once, lies at the upper end. -/
theorem up_stay_anti (hb0 : 0 < b) (hbb : b < b') (hb : b' ≤ 1) :
    pairChange b' .up b' .stay < pairChange b .up b .stay := by
  have hleft : standard.lever (gained 1 .up .stay b') (-1) 1 (3 / 50) ≤ 0 := by
    have hless := mul_nonneg (hb0.trans hbb).le lever_shared_up_stay.le
    rw [lever_gained, DeltaTerm.lever_degree_at, DeltaTerm.lever_degree_at]
    norm_num [DeltaTerm.apex, DeltaTerm.mass]
    linarith
  rw [pairChange_same hb0.ne', pairChange_same (hb0.trans hbb).ne']
  exact Centroid.centroid_lt_of_pivot (area_gained_pos hb) (area_gained_pos (hbb.le.trans hb))
    (gained_eq_add .up .stay b b') (by linarith) hleft lever_shared_up_stay area_shared_nonneg

end CapacityControl.Control
