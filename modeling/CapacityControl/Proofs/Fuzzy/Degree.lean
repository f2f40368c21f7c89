/-
  CapacityControl.Proofs.Fuzzy.Degree
  ───────────────────────────────────
  DEGREES OF MEMBERSHIP, exactly.  `Shape.degree` is the membership function of a shape
  with rational corners, at a rational: `membership_finite` says that `membership`
  computes it.  No case divides by zero, whatever the corners are.  Then: a ramp and the
  same ramp the other way round add up to one, and a triangle is positive between its feet
  and at its apex, even if that is one of them, and zero elsewhere.  Every degree is a line
  limited to the unit interval, or the lower one of two, and so rises and falls with it.
-/
import CapacityControl.Fuzzy.Term
import CapacityControl.Proofs.Exact.Arithmetic

namespace CapacityControl.Fuzzy

open Extended (finite)

/-! ## §1. Rational shapes. -/

namespace Shape

/-- The same shape with other corners. -/
def map {α β : Type} (f : α → β) : Shape α → Shape β
  | ramp start stop => ramp (f start) (f stop)
  | triangle left apex right => triangle (f left) (f apex) (f right)

/-- **The degree of membership** of a rational in a shape with rational corners. -/
def degree : Shape Rat → Rat → Rat
  | ramp start stop, x =>
    if start < stop then
      if x ≤ start then 0 else if stop ≤ x then 1 else (x - start) / (stop - start)
    else if start ≤ x then 0
    else if x ≤ stop then 1
    else (start - x) / (start - stop)
  | triangle left apex right, x =>
    if x < left ∨ right < x then 0
    else if x = apex then 1
    else if x < apex then (x - left) / (apex - left)
    else (right - x) / (right - apex)

theorem rampDegree_finite (start stop x : Rat) :
    rampDegree (finite start) (finite stop) (finite x) = finite ((ramp start stop).degree x) := by
  simp only [rampDegree, degree]
  simp only [Extended.finite_lt, Extended.finite_le, Extended.finite_sub,
    Extended.ofScientific_eq]
  split_ifs with hup hlow hhigh hhigh hlow
  · simp
  · simp
  · rw [Extended.finite_div _ _ (by linarith)]
  · simp
  · simp
  · rw [Extended.finite_div _ _ (by linarith)]

theorem triangleDegree_finite (left apex right x : Rat) :
    triangleDegree (finite left) (finite apex) (finite right) (finite x)
      = finite ((triangle left apex right).degree x) := by
  simp only [triangleDegree, degree]
  simp only [Extended.finite_lt, Extended.finite_sub, Extended.finite_beq, decide_eq_true_eq,
    Extended.ofScientific_eq]
  split_ifs with hout hapex hleft
  · simp
  · simp
  · have hfoot : left ≤ x := not_lt.mp fun h => hout (Or.inl h)
    rw [Extended.finite_div _ _ (by linarith)]
  · have hfoot : x ≤ right := not_lt.mp fun h => hout (Or.inr h)
    have hbeyond : apex < x := lt_of_le_of_ne (not_lt.mp hleft) (Ne.symm hapex)
    rw [Extended.finite_div _ _ (by linarith)]

/-- **Membership is the degree**: no corner and no point makes it divide by zero. -/
@[simp] theorem membership_finite (s : Shape Rat) (x : Rat) :
    (s.map finite).membership (finite x) = finite (s.degree x) := by
  unfold membership
  rw [Extended.isNaN_finite, if_neg (by simp)]
  cases s with
  | ramp start stop => exact rampDegree_finite start stop x
  | triangle left apex right => exact triangleDegree_finite left apex right x

/-! ## §2. Infinite values. -/

/-- A ramp is flat at infinity, at the height of the end that lies on that side. -/
theorem rampDegree_infinite (start stop : Rat) (negative : Bool) :
    rampDegree (finite start) (finite stop) (.infinite negative)
      = if start < stop ↔ negative = true then 0.0 else 1.0 := by
  unfold rampDegree
  by_cases hup : start < stop
  · rw [if_pos ((Extended.finite_lt _ _).mpr hup)]
    cases negative with
    | false =>
      have hstart : ¬Extended.infinite false ≤ finite start := nofun
      have hstop : finite stop ≤ Extended.infinite false := rfl
      rw [if_neg hstart, if_pos hstop, if_neg (by simp [hup])]
    | true =>
      have hstart : Extended.infinite true ≤ finite start := rfl
      rw [if_pos hstart, if_pos (by simp [hup])]
  · rw [if_neg (mt (Extended.finite_lt _ _).mp hup)]
    cases negative with
    | false =>
      have hstart : finite start ≤ Extended.infinite false := rfl
      rw [if_pos hstart, if_pos (by simp [hup])]
    | true =>
      have hstart : ¬finite start ≤ Extended.infinite true := nofun
      have hstop : Extended.infinite true ≤ finite stop := rfl
      rw [if_neg hstart, if_pos hstop, if_neg (by simp [hup])]

theorem outside_infinite (left right : Rat) (negative : Bool) :
    Extended.infinite negative < finite left ∨ finite right < Extended.infinite negative := by
  cases negative with
  | false => exact Or.inr rfl
  | true => exact Or.inl rfl

theorem triangleDegree_infinite (left apex right : Rat) (negative : Bool) :
    triangleDegree (finite left) (finite apex) (finite right) (.infinite negative) = 0.0 :=
  if_pos (outside_infinite left right negative)

/-! ## §3. Degrees lie in the unit interval. -/

theorem degree_nonneg (s : Shape Rat) (x : Rat) : 0 ≤ s.degree x := by
  cases s with
  | ramp start stop =>
    simp only [degree]
    split_ifs with hup hlow hhigh hlow hhigh
    · exact le_refl 0
    · exact zero_le_one
    · exact div_nonneg (by linarith) (by linarith)
    · exact le_refl 0
    · exact zero_le_one
    · exact div_nonneg (by linarith) (by linarith)
  | triangle left apex right =>
    simp only [degree]
    split_ifs with hout hapex hleft
    · exact le_refl 0
    · exact zero_le_one
    · have hfoot : left ≤ x := not_lt.mp fun h => hout (Or.inl h)
      exact div_nonneg (by linarith) (by linarith)
    · have hfoot : x ≤ right := not_lt.mp fun h => hout (Or.inr h)
      exact div_nonneg (by linarith) (by linarith)

theorem degree_le_one (s : Shape Rat) (x : Rat) : s.degree x ≤ 1 := by
  cases s with
  | ramp start stop =>
    simp only [degree]
    split_ifs with hup hlow hhigh hlow hhigh
    · exact zero_le_one
    · exact le_refl 1
    · rw [div_le_one (by linarith)]
      linarith
    · exact zero_le_one
    · exact le_refl 1
    · rw [div_le_one (by linarith)]
      linarith
  | triangle left apex right =>
    simp only [degree]
    split_ifs with hout hapex hleft
    · exact zero_le_one
    · exact le_refl 1
    · have hfoot : left ≤ x := not_lt.mp fun h => hout (Or.inl h)
      rw [div_le_one (by linarith)]
      linarith
    · have hfoot : x ≤ right := not_lt.mp fun h => hout (Or.inr h)
      have hbeyond : apex < x := lt_of_le_of_ne (not_lt.mp hleft) (Ne.symm hapex)
      rw [div_le_one (by linarith)]
      linarith

theorem degree_eq_zero_iff (s : Shape Rat) (x : Rat) : s.degree x = 0 ↔ ¬0 < s.degree x := by
  rw [not_lt]
  exact ⟨le_of_eq, fun h => le_antisymm h (s.degree_nonneg x)⟩

/-! ## §4. Ramps. -/

section Ramp

variable {start stop x : Rat}

/-- A rising ramp is positive beyond its start. -/
theorem rising_degree_pos_iff (h : start < stop) :
    0 < (ramp start stop).degree x ↔ start < x := by
  simp only [degree]
  rw [if_pos h]
  constructor
  · intro hpos
    by_contra hx
    rw [if_pos (not_lt.mp hx)] at hpos
    exact lt_irrefl 0 hpos
  · intro hx
    rw [if_neg (not_le.mpr hx)]
    split_ifs with hhigh
    · exact zero_lt_one
    · exact div_pos (by linarith) (by linarith)

/-- A falling ramp is positive before its start. -/
theorem falling_degree_pos_iff (h : stop < start) :
    0 < (ramp start stop).degree x ↔ x < start := by
  simp only [degree]
  rw [if_neg (not_lt.mpr h.le)]
  constructor
  · intro hpos
    by_contra hx
    rw [if_pos (not_lt.mp hx)] at hpos
    exact lt_irrefl 0 hpos
  · intro hx
    rw [if_neg (not_le.mpr hx)]
    split_ifs with hlow
    · exact zero_lt_one
    · exact div_pos (by linarith) (by linarith)

/-- **A ramp and the same ramp the other way round** add up to one. -/
theorem rising_degree_add_reversed (h : start < stop) (x : Rat) :
    (ramp start stop).degree x + (ramp stop start).degree x = 1 := by
  simp only [degree]
  rw [if_pos h, if_neg (not_lt.mpr h.le)]
  split_ifs with hlow hhigh hhigh
  · exact absurd h (not_lt.mpr (hhigh.trans hlow))
  · exact zero_add 1
  · exact add_zero 1
  · rw [← add_div, sub_add_sub_comm, add_comm x, add_sub_add_right_eq_sub,
      div_self (sub_pos.mpr h).ne']

theorem rising_degree_eq_zero_iff (h : start < stop) :
    (ramp start stop).degree x = 0 ↔ x ≤ start := by
  rw [degree_eq_zero_iff, rising_degree_pos_iff h, not_lt]

theorem falling_degree_eq_zero_iff (h : stop < start) :
    (ramp start stop).degree x = 0 ↔ start ≤ x := by
  rw [degree_eq_zero_iff, falling_degree_pos_iff h, not_lt]

/-- A rising ramp is one where the ramp the other way round is zero. -/
theorem rising_degree_eq_one_iff (h : start < stop) :
    (ramp start stop).degree x = 1 ↔ stop ≤ x := by
  have hsum := rising_degree_add_reversed h x
  rw [← falling_degree_eq_zero_iff h]
  exact ⟨fun hone => by linarith, fun hzero => by linarith⟩

theorem falling_degree_eq_one_iff (h : stop < start) :
    (ramp start stop).degree x = 1 ↔ x ≤ stop := by
  have hsum := rising_degree_add_reversed h x
  rw [← rising_degree_eq_zero_iff h]
  exact ⟨fun hone => by linarith, fun hzero => by linarith⟩

end Ramp

/-! ## §5. Triangles. -/

section Triangle

variable {left apex right x y : Rat}

/-- Turned round at zero, a triangle is a triangle again. -/
theorem triangle_degree_neg (left apex right x : Rat) :
    (triangle (-right) (-apex) (-left)).degree (-x) = (triangle left apex right).degree x := by
  simp only [degree, neg_lt_neg_iff, neg_inj, or_comm (a := right < x)]
  split_ifs with hout hapex hafter hbefore hbefore
  · rfl
  · rfl
  · exact absurd hbefore (not_lt.mpr hafter.le)
  · congr 1 <;> ring
  · congr 1 <;> ring
  · exact absurd (le_antisymm (not_lt.mp hafter) (not_lt.mp hbefore)) hapex

/-- A triangle is zero up to its left foot. -/
theorem triangle_degree_of_le_left (hl : left < apex) (hx : x ≤ left) :
    (triangle left apex right).degree x = 0 := by
  simp only [degree]
  rcases hx.lt_or_eq with hx | hx
  · rw [if_pos (Or.inl hx)]
  · subst hx
    split_ifs with hout hapex
    · rfl
    · exact absurd hapex hl.ne
    · simp

/-- A triangle is zero from its right foot on. -/
theorem triangle_degree_of_right_le (hr : apex < right) (hx : right ≤ x) :
    (triangle left apex right).degree x = 0 := by
  simp only [degree]
  rcases hx.lt_or_eq with hx | hx
  · rw [if_pos (Or.inr hx)]
  · subst hx
    split_ifs with hout hapex hleft
    · rfl
    · exact absurd hapex hr.ne'
    · exact absurd hleft (not_lt.mpr hr.le)
    · simp

/-- A triangle is positive between its feet. -/
theorem triangle_degree_pos (hl : left < x) (hr : x < right) :
    0 < (triangle left apex right).degree x := by
  simp only [degree]
  rw [if_neg (not_or.mpr ⟨not_lt.mpr hl.le, not_lt.mpr hr.le⟩)]
  split_ifs with hapex hleft
  · exact zero_lt_one
  · exact div_pos (by linarith) (by linarith)
  · have hbeyond : apex < x := lt_of_le_of_ne (not_lt.mp hleft) (Ne.symm hapex)
    exact div_pos (by linarith) (by linarith)

theorem triangle_degree_apex (hl : left ≤ apex) (hr : apex ≤ right) :
    (triangle left apex right).degree apex = 1 :=
  (if_neg (not_or.mpr ⟨not_lt.mpr hl, not_lt.mpr hr⟩)).trans (if_pos rfl)

/-- **A triangle is positive** between its feet, and at its apex even if that is one of them. -/
theorem triangle_degree_pos_iff_or (hl : left ≤ apex) (hr : apex ≤ right) :
    0 < (triangle left apex right).degree x ↔ left < x ∧ x < right ∨ x = apex := by
  constructor
  · intro hpos
    by_cases hapex : x = apex
    · exact Or.inr hapex
    · refine Or.inl ?_
      simp only [degree, if_neg hapex] at hpos
      split_ifs at hpos with hout hbefore
      · exact absurd hpos (lt_irrefl 0)
      · -- At the left foot the edge would be zero.
        have hfoot : left ≠ x := by
          rintro rfl
          rw [sub_self, zero_div] at hpos
          exact lt_irrefl 0 hpos
        exact ⟨lt_of_le_of_ne (not_lt.mp fun h => hout (Or.inl h)) hfoot, hbefore.trans_le hr⟩
      · have hfoot : x ≠ right := by
          rintro rfl
          rw [sub_self, zero_div] at hpos
          exact lt_irrefl 0 hpos
        have hafter : apex < x := lt_of_le_of_ne (not_lt.mp hbefore) (Ne.symm hapex)
        exact ⟨hl.trans_lt hafter, lt_of_le_of_ne (not_lt.mp fun h => hout (Or.inr h)) hfoot⟩
  · rintro (⟨hleft, hright⟩ | rfl)
    · exact triangle_degree_pos hleft hright
    · rw [triangle_degree_apex hl hr]
      exact zero_lt_one

/-- A proper triangle is positive between its feet and nowhere else. -/
theorem triangle_degree_pos_iff (hl : left < apex) (hr : apex < right) :
    0 < (triangle left apex right).degree x ↔ left < x ∧ x < right := by
  rw [triangle_degree_pos_iff_or hl.le hr.le]
  constructor
  · rintro (hbetween | rfl)
    · exact hbetween
    · exact ⟨hl, hr⟩
  · exact Or.inl

/-- A triangle is one at its apex only. -/
theorem triangle_degree_eq_one_iff (hl : left ≤ apex) (hr : apex ≤ right) :
    (triangle left apex right).degree x = 1 ↔ x = apex := by
  constructor
  · intro hone
    by_contra hapex
    simp only [degree, if_neg hapex] at hone
    split_ifs at hone with hout hbefore
    · exact zero_ne_one hone
    · have hfoot : left ≤ x := not_lt.mp fun h => hout (Or.inl h)
      rw [div_eq_one_iff_eq (by linarith)] at hone
      exact hapex (by linarith)
    · have hfoot : x ≤ right := not_lt.mp fun h => hout (Or.inr h)
      have hafter : apex < x := lt_of_le_of_ne (not_lt.mp hbefore) (Ne.symm hapex)
      rw [div_eq_one_iff_eq (by linarith)] at hone
      exact hapex (by linarith)
  · rintro rfl
    exact triangle_degree_apex hl hr

/-- Before its apex a triangle is its left edge, as far as that is not negative. -/
theorem triangle_degree_before (hl : left ≤ apex) (hr : apex ≤ right) (hx : x < apex) :
    (triangle left apex right).degree x = max 0 ((x - left) / (apex - left)) := by
  have hrise : 0 ≤ apex - left := by linarith
  simp only [degree]
  split_ifs with hout hapex
  · -- On this side a point can only be outside by lying before the left foot.
    have hfoot : x < left := hout.resolve_right (by linarith)
    exact (max_eq_left (div_nonpos_of_nonpos_of_nonneg (by linarith) hrise)).symm
  · exact absurd hapex hx.ne
  · have hfoot : left ≤ x := not_lt.mp fun h => hout (Or.inl h)
    exact (max_eq_right (div_nonneg (by linarith) hrise)).symm

/-- **A triangle rises up to its apex**, which it may reach in one leap. -/
theorem triangle_degree_mono (hl : left ≤ apex) (hr : apex ≤ right) (hxy : x ≤ y)
    (hy : y ≤ apex) : (triangle left apex right).degree x ≤ (triangle left apex right).degree y := by
  rcases hy.lt_or_eq with hy | rfl
  · have hrise : 0 ≤ apex - left := by linarith
    rw [triangle_degree_before hl hr (hxy.trans_lt hy), triangle_degree_before hl hr hy]
    gcongr
  · rw [triangle_degree_apex hl hr]
    exact degree_le_one _ x

/-- **A triangle falls from its apex on**: turned round, it rises. -/
theorem triangle_degree_anti (hl : left ≤ apex) (hr : apex ≤ right) (hxy : x ≤ y)
    (hx : apex ≤ x) : (triangle left apex right).degree y ≤ (triangle left apex right).degree x := by
  rw [← triangle_degree_neg left apex right x, ← triangle_degree_neg left apex right y]
  exact triangle_degree_mono (neg_le_neg hr) (neg_le_neg hl) (neg_le_neg hxy) (neg_le_neg hx)

/-- A triangle with its apex in the middle is its own mirror image. -/
theorem triangle_degree_reflect (hmid : apex - left = right - apex) :
    (triangle left apex right).degree (2 * apex - x) = (triangle left apex right).degree x := by
  -- The right foot is the mirror image of the left one, so `x` is outside when its image is.
  have hright : right = 2 * apex - left := by linarith
  subst hright
  simp only [degree]
  rcases lt_trichotomy x apex with hx | hx | hx
  · have hmirror : ¬ 2 * apex - x < apex := by linarith
    by_cases hout : x < left
    · rw [if_pos (Or.inl hout), if_pos (Or.inr (by linarith))]
    · rw [if_neg (by intro h; rcases h with h | h <;> linarith),
          if_neg (by intro h; linarith), if_neg hmirror,
          if_neg (by intro h; rcases h with h | h <;> linarith), if_neg hx.ne, if_pos hx]
      congr 1 <;> ring
  · subst hx
    rw [two_mul, add_sub_cancel_right]
  · have hmirror : 2 * apex - x < apex := by linarith
    by_cases hout : 2 * apex - left < x
    · rw [if_pos (Or.inr hout), if_pos (Or.inl (by linarith))]
    · rw [if_neg (by intro h; rcases h with h | h <;> linarith),
          if_neg (by intro h; linarith), if_pos hmirror,
          if_neg (by intro h; rcases h with h | h <;> linarith), if_neg hx.ne',
          if_neg (not_lt.mpr hx.le)]
      congr 1
      ring

end Triangle

/-! ## §6. Degrees as limited lines. -/

section Lines

variable {start stop left apex right x y : Rat}

/-- A rising ramp is a line limited to the unit interval. -/
theorem rising_degree_eq (h : start < stop) :
    (ramp start stop).degree x = min 1 (max 0 ((x - start) / (stop - start))) := by
  have hspan : 0 < stop - start := by linarith
  simp only [degree]
  rw [if_pos h]
  split_ifs with hlow hhigh
  · rw [max_eq_left (div_nonpos_of_nonpos_of_nonneg (by linarith) hspan.le),
      min_eq_right zero_le_one]
  · have hone : 1 ≤ (x - start) / (stop - start) := (one_le_div hspan).mpr (by linarith)
    rw [max_eq_right (zero_le_one.trans hone), min_eq_left hone]
  · have hone : (x - start) / (stop - start) ≤ 1 := (div_le_one hspan).mpr (by linarith)
    rw [max_eq_right (div_nonneg (by linarith) hspan.le), min_eq_right hone]

/-- A falling ramp is a line limited to the unit interval. -/
theorem falling_degree_eq (h : stop < start) :
    (ramp start stop).degree x = min 1 (max 0 ((start - x) / (start - stop))) := by
  have hspan : 0 < start - stop := by linarith
  simp only [degree]
  rw [if_neg (not_lt.mpr h.le)]
  split_ifs with hhigh hlow
  · rw [max_eq_left (div_nonpos_of_nonpos_of_nonneg (by linarith) hspan.le),
      min_eq_right zero_le_one]
  · have hone : 1 ≤ (start - x) / (start - stop) := (one_le_div hspan).mpr (by linarith)
    rw [max_eq_right (zero_le_one.trans hone), min_eq_left hone]
  · have hone : (start - x) / (start - stop) ≤ 1 := (div_le_one hspan).mpr (by linarith)
    rw [max_eq_right (div_nonneg (by linarith) hspan.le), min_eq_right hone]

/-- A triangle is the lower one of its edges, as far as that is not negative. -/
theorem triangle_degree_eq (hl : left < apex) (hr : apex < right) :
    (triangle left apex right).degree x
      = max 0 (min ((x - left) / (apex - left)) ((right - x) / (right - apex))) := by
  have hrise : 0 < apex - left := by linarith
  have hfall : 0 < right - apex := by linarith
  simp only [degree]
  split_ifs with hout hapex hleft
  · symm
    rcases hout with hx | hx
    · exact max_eq_left ((min_le_left _ _).trans
        (div_nonpos_of_nonpos_of_nonneg (by linarith) hrise.le))
    · exact max_eq_left ((min_le_right _ _).trans
        (div_nonpos_of_nonpos_of_nonneg (by linarith) hfall.le))
  · subst hapex
    rw [div_self hrise.ne', div_self hfall.ne', min_self, max_eq_right zero_le_one]
  · have hfoot : left ≤ x := not_lt.mp fun h => hout (Or.inl h)
    rw [min_eq_left, max_eq_right (div_nonneg (by linarith) hrise.le)]
    exact ((div_le_one hrise).mpr (by linarith)).trans ((one_le_div hfall).mpr (by linarith))
  · have hfoot : x ≤ right := not_lt.mp fun h => hout (Or.inr h)
    have hbeyond : apex ≤ x := not_lt.mp hleft
    rw [min_eq_right, max_eq_right (div_nonneg (by linarith) hfall.le)]
    exact ((div_le_one hfall).mpr (by linarith)).trans ((one_le_div hrise).mpr (by linarith))

theorem rising_degree_between (h : start < stop) (h0 : start ≤ x) (h1 : x ≤ stop) :
    (ramp start stop).degree x = (x - start) / (stop - start) := by
  have hspan : 0 < stop - start := by linarith
  rw [rising_degree_eq h, max_eq_right (div_nonneg (by linarith) hspan.le),
    min_eq_right ((div_le_one hspan).mpr (by linarith))]

theorem falling_degree_between (h : stop < start) (h0 : stop ≤ x) (h1 : x ≤ start) :
    (ramp start stop).degree x = (start - x) / (start - stop) := by
  have hspan : 0 < start - stop := by linarith
  rw [falling_degree_eq h, max_eq_right (div_nonneg (by linarith) hspan.le),
    min_eq_right ((div_le_one hspan).mpr (by linarith))]

/-- Up to the apex the left edge is the lower one. -/
theorem left_edge_le (hl : left < apex) (hr : apex < right) (hx : x ≤ apex) :
    (x - left) / (apex - left) ≤ (right - x) / (right - apex) := by
  have hrise : 0 < apex - left := by linarith
  have hfall : 0 < right - apex := by linarith
  exact ((div_le_one hrise).mpr (by linarith)).trans ((one_le_div hfall).mpr (by linarith))

/-- From the apex on the right edge is the lower one. -/
theorem right_edge_le (hl : left < apex) (hr : apex < right) (hx : apex ≤ x) :
    (right - x) / (right - apex) ≤ (x - left) / (apex - left) := by
  have hrise : 0 < apex - left := by linarith
  have hfall : 0 < right - apex := by linarith
  exact ((div_le_one hfall).mpr (by linarith)).trans ((one_le_div hrise).mpr (by linarith))

theorem triangle_degree_left (hl : left < apex) (hr : apex < right) (h0 : left ≤ x)
    (h1 : x ≤ apex) : (triangle left apex right).degree x = (x - left) / (apex - left) := by
  rw [triangle_degree_eq hl hr, min_eq_left (left_edge_le hl hr h1),
    max_eq_right (div_nonneg (by linarith) (by linarith))]

theorem triangle_degree_right (hl : left < apex) (hr : apex < right) (h0 : apex ≤ x)
    (h1 : x ≤ right) : (triangle left apex right).degree x = (right - x) / (right - apex) := by
  rw [triangle_degree_eq hl hr, min_eq_right (right_edge_le hl hr h0),
    max_eq_right (div_nonneg (by linarith) (by linarith))]

theorem rising_degree_mono (h : start < stop) (hxy : x ≤ y) :
    (ramp start stop).degree x ≤ (ramp start stop).degree y := by
  have hspan : 0 ≤ stop - start := by linarith
  rw [rising_degree_eq h, rising_degree_eq h]
  gcongr

theorem falling_degree_anti (h : stop < start) (hxy : x ≤ y) :
    (ramp start stop).degree y ≤ (ramp start stop).degree x := by
  have hspan : 0 ≤ start - stop := by linarith
  rw [falling_degree_eq h, falling_degree_eq h]
  gcongr

end Lines

end Shape

end CapacityControl.Fuzzy
