/-
  CapacityControl.Proofs.Stats.Markers
  ────────────────────────────────────
  THE FIVE MARKERS STAND IN ORDER.  Between rational samples the markers are rational,
  their ranks rise strictly and their heights never fall (`Markers.Ordered`).  So no two
  neighbours ever share a rank: every slope that a marker follows is a number, and a
  marker that is moved stays between its neighbours, at whichever of the two heights.
-/
import CapacityControl.Proofs.Exact.Arithmetic
import CapacityControl.Stats.Markers

namespace CapacityControl.Stats

open Extended (finite)

/-! ## §1. Rational markers. -/

/-- A rational marker in the exact arithmetic. -/
def Marker.exact (m : Marker Rat) : Marker Extended :=
  ⟨finite m.height, finite m.position, finite m.desired⟩

/-- A marker stands before another: at a lower rank, and not higher. -/
structure Marker.Before (a b : Marker Rat) : Prop where
  position : a.position < b.position
  height : a.height ≤ b.height

/-- A marker that moves by whole ranks, and that is then to stand `step` ranks further up. -/
structure Marker.ShiftsTo (m : Marker Rat) (step : Rat) (m' : Marker Rat) : Prop where
  position : ∃ ranks : Int, m'.position = m.position + ranks
  desired : m'.desired = m.desired + step

namespace Markers

/-- Rational markers in the exact arithmetic. -/
def exact (m : Markers Rat) : Markers Extended :=
  ⟨m.lowest.exact, m.lower.exact, m.middle.exact, m.upper.exact, m.highest.exact⟩

/-- Each marker stands before the next. -/
structure Ordered (m : Markers Rat) : Prop where
  lowest : m.lowest.Before m.lower
  lower : m.lower.Before m.middle
  middle : m.middle.Before m.upper
  upper : m.upper.Before m.highest

end Markers

/-! ## §2. Moving one marker. -/

namespace Marker

variable {l m r : Marker Rat}

/-- The marker one rank further up. -/
def up (m : Marker Rat) : Marker Rat := { m with position := m.position + 1 }

theorem raise_exact (m : Marker Rat) : m.exact.raise = m.up.exact := by
  simp [raise, exact, up]

theorem Before.up_right (h : l.Before r) : l.Before r.up :=
  ⟨h.position.trans (lt_add_one r.position), h.height⟩

theorem Before.up_both (h : l.Before r) : l.up.Before r.up :=
  ⟨add_lt_add_left h.position 1, h.height⟩

theorem shiftsTo_refl (m : Marker Rat) : m.ShiftsTo 0 m :=
  ⟨⟨0, by rw [Int.cast_zero, add_zero]⟩, (add_zero m.desired).symm⟩

theorem shiftsTo_up (m : Marker Rat) : m.ShiftsTo 0 m.up :=
  ⟨⟨1, by rw [Int.cast_one]; rfl⟩, (add_zero m.desired).symm⟩

theorem ShiftsTo.trans {k : Marker Rat} {s t : Rat} (h : l.ShiftsTo s m) (h' : m.ShiftsTo t k) :
    l.ShiftsTo (s + t) k := by
  obtain ⟨i, hi⟩ := h.position
  obtain ⟨j, hj⟩ := h'.position
  refine ⟨⟨i + j, ?_⟩, ?_⟩
  · rw [hj, hi, Int.cast_add, add_assoc]
  · rw [h'.desired, h.desired, add_assoc]

/-- The ranks that a marker has moved by before and after its desired rank moves on add up. -/
theorem ShiftsTo.drift {k : Marker Rat} {step : Rat} (h : l.ShiftsTo 0 m)
    (h' : ({ m with desired := m.desired + step } : Marker Rat).ShiftsTo 0 k) :
    l.ShiftsTo step k := by
  have hdrift : m.ShiftsTo step { m with desired := m.desired + step } :=
    ⟨⟨0, by rw [Int.cast_zero, add_zero]⟩, rfl⟩
  simpa using (h.trans hdrift).trans h'

/-- Neighbours in order are at different ranks. -/
theorem spans_ne_zero (hl : l.Before m) (hr : m.Before r) :
    r.position - m.position ≠ 0 ∧ l.position - m.position ≠ 0 ∧ r.position - l.position ≠ 0 :=
  ⟨(sub_pos.mpr hr.position).ne', (sub_neg.mpr hl.position).ne,
    (sub_pos.mpr (hl.position.trans hr.position)).ne'⟩

theorem parabolic_exact (sign : Rat) (hl : l.Before m) (hr : m.Before r) :
    ∃ height, parabolic (finite sign) l.exact m.exact r.exact = finite height := by
  obtain ⟨hup, hdown, hspan⟩ := spans_ne_zero hl hr
  unfold parabolic exact
  simp only [Extended.finite_sub, Extended.finite_div _ _ hup, Extended.finite_div _ _ hdown,
    Extended.finite_div _ _ hspan, Extended.finite_add, Extended.finite_mul]
  exact ⟨_, rfl⟩

theorem linear_exact (sign : Rat) {toward : Marker Rat} (h : toward.position ≠ m.position) :
    linear (finite sign) m.exact toward.exact
      = finite (m.height
          + sign * (toward.height - m.height) / (toward.position - m.position)) := by
  unfold linear exact
  simp only [Extended.finite_sub, Extended.finite_mul, Extended.finite_div _ _ (sub_ne_zero.mpr h),
    Extended.finite_add]

/-- A part of the way between two heights is neither negative nor more than the way. -/
theorem part_bounds {low high span : Rat} (hle : low ≤ high) (hspan : 1 < span) :
    0 ≤ (high - low) / span ∧ (high - low) / span ≤ high - low := by
  have hway : 0 ≤ high - low := sub_nonneg.mpr hle
  exact ⟨div_nonneg hway (zero_lt_one.trans hspan).le, div_le_self hway hspan.le⟩

/-- A marker that moves by a rank, at a height between its neighbours, stays between them. -/
theorem exact_of_height {sign height : Rat} {ranks : Int} (hsign : sign = ranks)
    (hposition : l.position < m.position + sign) (hposition' : m.position + sign < r.position)
    (hl : l.height ≤ height) (hr : height ≤ r.height) :
    ∃ m' : Marker Rat,
      ({ m.exact with height := finite height, position := m.exact.position + finite sign }
          : Marker Extended) = m'.exact
        ∧ l.Before m' ∧ m'.Before r ∧ m.ShiftsTo 0 m' :=
  ⟨⟨height, m.position + sign, m.desired⟩, rfl, ⟨hposition, hl⟩, ⟨hposition', hr⟩,
    ⟨ranks, congrArg (m.position + ·) hsign⟩, (add_zero m.desired).symm⟩

/-- **A step up** leaves a marker between its neighbours. -/
theorem move_up_exact (hl : l.Before m) (hr : m.Before r) (hroom : 1 < r.position - m.position) :
    ∃ m' : Marker Rat, move (finite 1) l.exact m.exact r.exact = m'.exact
      ∧ l.Before m' ∧ m'.Before r ∧ m.ShiftsTo 0 m' := by
  obtain ⟨height, hparabola⟩ := parabolic_exact 1 hl hr
  have hleft : l.position < m.position + 1 := by linarith [hl.position]
  have hright : m.position + 1 < r.position := by linarith
  have hrank : (1 : Rat) = (1 : Int) := Int.cast_one.symm
  unfold move
  rw [hparabola]
  by_cases hbetween : l.exact.height < finite height ∧ finite height < r.exact.height
  · simp only [if_pos hbetween]
    exact exact_of_height hrank hleft hright ((Extended.finite_lt _ _).mp hbetween.1).le
      ((Extended.finite_lt _ _).mp hbetween.2).le
  · have hsign : (0.0 : Extended) < finite 1 := by norm_num
    simp only [if_neg hbetween, if_pos hsign]
    rw [linear_exact 1 hr.position.ne', one_mul]
    obtain ⟨hlow, hhigh⟩ := part_bounds hr.height hroom
    exact exact_of_height hrank hleft hright (by linarith [hl.height]) (by linarith)

/-- **A step down** leaves a marker between its neighbours. -/
theorem move_down_exact (hl : l.Before m) (hr : m.Before r) (hroom : l.position - m.position < -1) :
    ∃ m' : Marker Rat, move (finite (-1)) l.exact m.exact r.exact = m'.exact
      ∧ l.Before m' ∧ m'.Before r ∧ m.ShiftsTo 0 m' := by
  obtain ⟨height, hparabola⟩ := parabolic_exact (-1) hl hr
  have hleft : l.position < m.position + -1 := by linarith
  have hright : m.position + -1 < r.position := by linarith [hr.position]
  have hrank : (-1 : Rat) = (-1 : Int) := by rw [Int.cast_neg, Int.cast_one]
  unfold move
  rw [hparabola]
  by_cases hbetween : l.exact.height < finite height ∧ finite height < r.exact.height
  · simp only [if_pos hbetween]
    exact exact_of_height hrank hleft hright ((Extended.finite_lt _ _).mp hbetween.1).le
      ((Extended.finite_lt _ _).mp hbetween.2).le
  · have hsign : ¬ (0.0 : Extended) < finite (-1) := by norm_num
    simp only [if_neg hbetween, if_neg hsign]
    rw [linear_exact (-1) hl.position.ne]
    -- Seen from the left neighbour this is the way down from `m`, by the same part.
    have hspan : l.position - m.position ≠ 0 := by linarith
    have hpart : m.height + -1 * (l.height - m.height) / (l.position - m.position)
        = m.height - (m.height - l.height) / (m.position - l.position) := by
      have hflip : m.position - l.position ≠ 0 := by
        intro h
        exact hspan (by linarith)
      field_simp
      ring
    have hroom' : 1 < m.position - l.position := by linarith
    obtain ⟨hlow, hhigh⟩ := part_bounds hl.height hroom'
    rw [hpart]
    exact exact_of_height hrank hleft hright (by linarith) (by linarith [hr.height])

/-- **One adjustment** leaves a marker between its neighbours. -/
theorem adjust_exact (hl : l.Before m) (hr : m.Before r) :
    ∃ m' : Marker Rat, adjust l.exact m.exact r.exact = m'.exact
      ∧ l.Before m' ∧ m'.Before r ∧ m.ShiftsTo 0 m' := by
  -- A marker moves if it is a rank or more away from where it should be and has room for it.
  by_cases hup : 1 ≤ m.desired - m.position ∧ 1 < r.position - m.position
  · have hmoves : adjust l.exact m.exact r.exact = move (finite 1) l.exact m.exact r.exact := by
      have hsign : 0 < m.desired - m.position := by linarith [hup.1]
      unfold adjust
      simp [exact, hup.1, hup.2, hsign]
    rw [hmoves]
    exact move_up_exact hl hr hup.2
  · by_cases hdown : m.desired - m.position ≤ -1 ∧ l.position - m.position < -1
    · have hmoves : adjust l.exact m.exact r.exact = move (finite (-1)) l.exact m.exact r.exact := by
        have hsign : ¬ 0 < m.desired - m.position := by linarith [hdown.1]
        unfold adjust
        simp [exact, hdown.1, hdown.2, hsign]
      rw [hmoves]
      exact move_down_exact hl hr hdown.2
    · have hstays : adjust l.exact m.exact r.exact = m.exact := by
        unfold adjust
        simp only [exact, Extended.one_eq, Extended.finite_sub, Extended.finite_neg,
          Extended.finite_le, Extended.finite_lt]
        rw [if_neg (not_or.mpr ⟨hup, hdown⟩)]
      exact ⟨m, hstays, hl, hr, shiftsTo_refl m⟩

end Marker

/-! ## §3. One sample. -/

namespace Markers

variable {m : Markers Rat}

/-- The first markers, over five samples in ascending order. -/
def first (p a b c d e : Rat) : Markers Rat :=
  ⟨⟨a, 1, 1⟩, ⟨b, 2, 1 + 2 * p⟩, ⟨c, 3, 1 + 4 * p⟩, ⟨d, 4, 3 + 2 * p⟩, ⟨e, 5, 5⟩⟩

theorem start_exact (p a b c d e : Rat) :
    start (finite p) (finite a) (finite b) (finite c) (finite d) (finite e)
      = (first p a b c d e).exact := by
  norm_num [start, first, exact, Marker.exact]

theorem ordered_first (p : Rat) {a b c d e : Rat} (hab : a ≤ b) (hbc : b ≤ c) (hcd : c ≤ d)
    (hde : d ≤ e) : (first p a b c d e).Ordered := by
  refine ⟨⟨?_, hab⟩, ⟨?_, hbc⟩, ⟨?_, hcd⟩, ⟨?_, hde⟩⟩
  · norm_num [first]
  · norm_num [first]
  · norm_num [first]
  · norm_num [first]

theorem Ordered.lowest_le_middle (hm : m.Ordered) : m.lowest.height ≤ m.middle.height :=
  hm.lowest.height.trans hm.lower.height

theorem Ordered.middle_le_highest (hm : m.Ordered) : m.middle.height ≤ m.highest.height :=
  hm.middle.height.trans hm.upper.height

/-- **What a sample does before the markers are adjusted**: the ends enclose it, the highest
marker counts it, and the others move by whole ranks or not at all. -/
structure Encloses (m : Markers Rat) (value : Rat) (m' : Markers Rat) : Prop where
  lowest : m'.lowest = { m.lowest with height := min value m.lowest.height }
  lower : m.lower.ShiftsTo 0 m'.lower
  middle : m.middle.ShiftsTo 0 m'.middle
  upper : m.upper.ShiftsTo 0 m'.upper
  highest : m'.highest = { m.highest.up with height := max value m.highest.height }

/-- The markers above a sample move up together, and the ends make room for it. -/
theorem raise_enclose_exact (hm : m.Ordered) (value : Rat) :
    ∃ m' : Markers Rat, (m.exact.raiseAbove (finite value)).enclose (finite value) = m'.exact
      ∧ m'.Ordered ∧ m.Encloses value m' := by
  have hraise : ∀ k : Marker Rat, k.exact.raise = k.up.exact := Marker.raise_exact
  have hup := Marker.shiftsTo_up
  have hstay := Marker.shiftsTo_refl
  unfold raiseAbove enclose
  by_cases hlowest : finite value < m.exact.lowest.height
  · -- The sample is the new least one, and all other markers are above it.
    have hle : value ≤ m.lowest.height := ((Extended.finite_lt _ _).mp hlowest).le
    have hle' : value ≤ m.highest.height :=
      (hle.trans hm.lowest_le_middle).trans hm.middle_le_highest
    refine ⟨⟨{ m.lowest with height := value }, m.lower.up, m.middle.up, m.upper.up,
      m.highest.up⟩, ?_, ?_, ?_⟩
    · simp only [if_pos hlowest]
      simp only [exact, hraise]
      rfl
    · have hfirst : ({ m.lowest with height := value } : Marker Rat).Before m.lower :=
        ⟨hm.lowest.position, hle.trans hm.lowest.height⟩
      exact ⟨hfirst.up_right, hm.lower.up_both, hm.middle.up_both, hm.upper.up_both⟩
    · refine ⟨?_, hup _, hup _, hup _, ?_⟩
      · rw [min_eq_left hle]
      · rw [max_eq_right hle']
        rfl
  · have hge : m.lowest.height ≤ value := not_lt.mp (mt (Extended.finite_lt _ _).mpr hlowest)
    have hlow : m.lowest = { m.lowest with height := min value m.lowest.height } := by
      rw [min_eq_right hge]
    by_cases hhighest : m.exact.highest.height ≤ finite value
    · -- The sample is the new greatest one.
      have hle : m.highest.height ≤ value := (Extended.finite_le _ _).mp hhighest
      refine ⟨⟨m.lowest, m.lower, m.middle, m.upper, { m.highest.up with height := value }⟩,
        ?_, ?_, ?_⟩
      · have hraised : m.exact.highest.raise.height ≤ finite value := hhighest
        simp only [if_neg hlowest, if_pos hhighest, if_pos hraised]
        simp only [exact, hraise]
        rfl
      · refine ⟨hm.lowest, hm.lower, hm.middle, ?_⟩
        exact ⟨hm.upper.up_right.position, hm.upper.height.trans hle⟩
      · refine ⟨hlow, hstay _, hstay _, hstay _, ?_⟩
        rw [max_eq_left hle]
    · -- The sample lies between the ends; the markers from some place on are above it.
      have hraised : ¬ m.exact.highest.raise.height ≤ finite value := hhighest
      have hle : value ≤ m.highest.height :=
        (not_le.mp (mt (Extended.finite_le _ _).mpr hhighest)).le
      have hhigh : m.highest.up = { m.highest.up with height := max value m.highest.height } := by
        rw [max_eq_right hle]
        rfl
      by_cases hlower : finite value < m.exact.lower.height
      · refine ⟨⟨m.lowest, m.lower.up, m.middle.up, m.upper.up, m.highest.up⟩, ?_,
          ⟨hm.lowest.up_right, hm.lower.up_both, hm.middle.up_both, hm.upper.up_both⟩,
          ⟨hlow, hup _, hup _, hup _, hhigh⟩⟩
        simp only [if_neg hlowest, if_neg hhighest, if_pos hlower, if_neg hraised]
        simp only [exact, hraise]
      · by_cases hmiddle : finite value < m.exact.middle.height
        · refine ⟨⟨m.lowest, m.lower, m.middle.up, m.upper.up, m.highest.up⟩, ?_,
            ⟨hm.lowest, hm.lower.up_right, hm.middle.up_both, hm.upper.up_both⟩,
            ⟨hlow, hstay _, hup _, hup _, hhigh⟩⟩
          simp only [if_neg hlowest, if_neg hhighest, if_neg hlower, if_pos hmiddle, if_neg hraised]
          simp only [exact, hraise]
        · by_cases hupper : finite value < m.exact.upper.height
          · refine ⟨⟨m.lowest, m.lower, m.middle, m.upper.up, m.highest.up⟩, ?_,
              ⟨hm.lowest, hm.lower, hm.middle.up_right, hm.upper.up_both⟩,
              ⟨hlow, hstay _, hstay _, hup _, hhigh⟩⟩
            simp only [if_neg hlowest, if_neg hhighest, if_neg hlower, if_neg hmiddle,
              if_pos hupper, if_neg hraised]
            simp only [exact, hraise]
          · refine ⟨⟨m.lowest, m.lower, m.middle, m.upper, m.highest.up⟩, ?_,
              ⟨hm.lowest, hm.lower, hm.middle, hm.upper.up_right⟩,
              ⟨hlow, hstay _, hstay _, hstay _, hhigh⟩⟩
            simp only [if_neg hlowest, if_neg hhighest, if_neg hlower, if_neg hmiddle,
              if_neg hupper, if_neg hraised]
            simp only [exact, hraise]

/-- The markers that are to stand where one more sample wants them to. -/
def drifted (m : Markers Rat) (p : Rat) : Markers Rat :=
  ⟨m.lowest, { m.lower with desired := m.lower.desired + p / 2 },
    { m.middle with desired := m.middle.desired + p },
    { m.upper with desired := m.upper.desired + (1 + p) / 2 },
    { m.highest with desired := m.highest.desired + 1 }⟩

theorem drift_exact (m : Markers Rat) (p : Rat) :
    m.exact.drift (finite p) = (m.drifted p).exact := by
  have htwo : (2 : Rat) ≠ 0 := by norm_num
  unfold drift drifted exact Marker.drift Marker.exact
  simp only [Extended.zero_eq, Extended.one_eq, Extended.two_eq, Extended.finite_add,
    Extended.finite_div _ _ htwo, add_zero]

theorem Ordered.drifted (hm : m.Ordered) (p : Rat) : (m.drifted p).Ordered :=
  ⟨⟨hm.lowest.position, hm.lowest.height⟩, ⟨hm.lower.position, hm.lower.height⟩,
    ⟨hm.middle.position, hm.middle.height⟩, ⟨hm.upper.position, hm.upper.height⟩⟩

/-- **Adjusting the inner markers** from the left to the right keeps all in order: each is
adjusted between its neighbours as they then are.  The ends stay. -/
theorem adjust_exact (hm : m.Ordered) :
    ∃ m' : Markers Rat, m.exact.adjust = m'.exact ∧ m'.Ordered
      ∧ m'.lowest = m.lowest ∧ m.lower.ShiftsTo 0 m'.lower ∧ m.middle.ShiftsTo 0 m'.middle
      ∧ m.upper.ShiftsTo 0 m'.upper ∧ m'.highest = m.highest := by
  obtain ⟨lower, hlower, hlowest_lower, hlower_middle, hshift⟩ :=
    Marker.adjust_exact hm.lowest hm.lower
  obtain ⟨middle, hmiddle, hlower_middle', hmiddle_upper, hshift'⟩ :=
    Marker.adjust_exact hlower_middle hm.middle
  obtain ⟨upper, hupper, hmiddle_upper', hupper_highest, hshift''⟩ :=
    Marker.adjust_exact hmiddle_upper hm.upper
  refine ⟨⟨m.lowest, lower, middle, upper, m.highest⟩, ?_,
    ⟨hlowest_lower, hlower_middle', hmiddle_upper', hupper_highest⟩,
    rfl, hshift, hshift', hshift'', rfl⟩
  unfold Markers.adjust exact
  simp only [hlower, hmiddle, hupper]

/-- **What a sample does to the markers**: the ends enclose it, the highest marker counts it,
and the others move by whole ranks while their desired ranks move on. -/
structure Collects (m : Markers Rat) (p value : Rat) (m' : Markers Rat) : Prop where
  lowest : m'.lowest = { m.lowest with height := min value m.lowest.height }
  lower : m.lower.ShiftsTo (p / 2) m'.lower
  middle : m.middle.ShiftsTo p m'.middle
  upper : m.upper.ShiftsTo ((1 + p) / 2) m'.upper
  highest : m'.highest
    = ⟨max value m.highest.height, m.highest.position + 1, m.highest.desired + 1⟩

/-- **One sample** leaves the markers rational and in order. -/
theorem collect_exact (hm : m.Ordered) (p value : Rat) :
    ∃ m' : Markers Rat, m.exact.collect (finite p) (finite value) = m'.exact ∧ m'.Ordered
      ∧ m.Collects p value m' := by
  obtain ⟨raised, hraised, hordered, hencloses⟩ := raise_enclose_exact hm value
  obtain ⟨m', hm', hordered', hlowest, hlower, hmiddle, hupper, hhighest⟩ :=
    adjust_exact (hordered.drifted p)
  refine ⟨m', ?_, hordered', ?_, hencloses.lower.drift hlower, hencloses.middle.drift hmiddle,
    hencloses.upper.drift hupper, ?_⟩
  · unfold Markers.collect
    rw [hraised, drift_exact, hm']
  · rw [hlowest]
    exact hencloses.lowest
  · rw [hhighest]
    show ({ raised.highest with desired := raised.highest.desired + 1 } : Marker Rat) = _
    rw [hencloses.highest]
    rfl

end Markers

/-! ## §4. Divisions. -/

/-- All that the adjustment of a marker divides by: its distances in rank from its neighbours,
and theirs from each other. -/
def Marker.divisors {α : Type} [Scalar α] (left m right : Marker α) : List α :=
  [right.position - m.position, left.position - m.position, right.position - left.position]

/-- All that the adjustment of the inner markers divides by, each between its neighbours as they
then are. -/
def Markers.divisors {α : Type} [Scalar α] (m : Markers α) : List α :=
  let lower := Marker.adjust m.lowest m.lower m.middle
  let middle := Marker.adjust lower m.middle m.upper
  Marker.divisors m.lowest m.lower m.middle ++ Marker.divisors lower m.middle m.upper ++
    Marker.divisors middle m.upper m.highest

theorem Marker.divisors_ne_zero {l m r : Marker Rat} (hl : l.Before m) (hr : m.Before r) :
    ∀ d ∈ divisors l.exact m.exact r.exact, d ≠ finite 0 := by
  obtain ⟨hup, hdown, hspan⟩ := spans_ne_zero hl hr
  unfold divisors exact
  simp only [Extended.finite_sub, List.forall_mem_cons, List.not_mem_nil, false_imp_iff,
    implies_true, and_true, ne_eq, Extended.finite_inj]
  exact ⟨hup, hdown, hspan⟩

/-- **Markers in order are never adjusted by a division by zero**: those that are already
adjusted are in order with the others. -/
theorem Markers.Ordered.divisors_ne_zero {m : Markers Rat} (hm : m.Ordered) :
    ∀ d ∈ m.exact.divisors, d ≠ finite 0 := by
  obtain ⟨lower, hlower, hlowest_lower, hlower_middle, _⟩ :=
    Marker.adjust_exact hm.lowest hm.lower
  obtain ⟨middle, hmiddle, hlower_middle', hmiddle_upper, _⟩ :=
    Marker.adjust_exact hlower_middle hm.middle
  have hsplit : m.exact.divisors = Marker.divisors m.lowest.exact m.lower.exact m.middle.exact ++
      Marker.divisors lower.exact m.middle.exact m.upper.exact ++
      Marker.divisors middle.exact m.upper.exact m.highest.exact := by
    unfold divisors exact
    simp only [hlower, hmiddle]
  intro d hd
  rw [hsplit, List.mem_append, List.mem_append] at hd
  rcases hd with (hd | hd) | hd
  · exact Marker.divisors_ne_zero hm.lowest hm.lower d hd
  · exact Marker.divisors_ne_zero hlower_middle hm.middle d hd
  · exact Marker.divisors_ne_zero hmiddle_upper hm.upper d hd

/-- The markers between the arrival of a sample and their adjustment. -/
def Markers.unadjusted {α : Type} [Scalar α] (m : Markers α) (p value : α) : Markers α :=
  ((m.raiseAbove value).enclose value).drift p

theorem Markers.collect_eq {α : Type} [Scalar α] (m : Markers α) (p value : α) :
    m.collect p value = (m.unadjusted p value).adjust := rfl

/-- No sample makes markers in order divide by zero. -/
theorem Markers.Ordered.divisors_unadjusted {m : Markers Rat} (hm : m.Ordered) (p value : Rat) :
    ∀ d ∈ (m.exact.unadjusted (finite p) (finite value)).divisors, d ≠ finite 0 := by
  obtain ⟨raised, hraised, hordered, _⟩ := raise_enclose_exact hm value
  unfold unadjusted
  rw [hraised, drift_exact]
  exact (hordered.drifted p).divisors_ne_zero

end CapacityControl.Stats
