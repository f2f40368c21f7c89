/-
  CapacityControl.Proofs.Stats.Rescaling
  ──────────────────────────────────────
  STATISTICS ON ANOTHER SCALE.  The statistics of rescaled samples are the rescaled statistics
  of the samples, for every sample that comes.  Ranks are counted on no scale: markers keep
  their positions and desired ranks, and the branch of every comparison of heights is the same
  on both scales (`Markers.collect_rescaled`).  A mean starts at zero, so its unit may change
  but not its origin (`Estimator.collect_rescaled`).
-/
import CapacityControl.Proofs.Exact.Rescaling
import CapacityControl.Proofs.Stats.Estimate
import CapacityControl.Stats.Smoother

namespace CapacityControl.Stats

variable {α : Type} [Scalar α]

/-! ## §1. Markers. -/

/-- The marker with another height. -/
def Marker.rescaled (f : α → α) (m : Marker α) : Marker α := { m with height := f m.height }

/-- The markers with other heights. -/
def Markers.rescaled (f : α → α) (m : Markers α) : Markers α :=
  ⟨m.lowest.rescaled f, m.lower.rescaled f, m.middle.rescaled f, m.upper.rescaled f,
    m.highest.rescaled f⟩

section Markers

variable (u : Rescaling α)

namespace Marker

theorem parabolic_rescaled (sign : α) (left m right : Marker α) :
    parabolic sign (left.rescaled u.value) (m.rescaled u.value) (right.rescaled u.value)
      = u.value (parabolic sign left m right) := by
  unfold parabolic rescaled
  simp only [u.value_sub, u.span_div, u.mul_span, u.span_add, u.value_add]

theorem linear_rescaled (sign : α) (m toward : Marker α) :
    linear sign (m.rescaled u.value) (toward.rescaled u.value) = u.value (linear sign m toward) := by
  unfold linear rescaled
  simp only [u.value_sub, u.mul_span, u.span_div, u.value_add]

/-- **A move** takes the parabola on both scales, or the line on both. -/
theorem move_rescaled (sign : α) (left m right : Marker α) :
    move sign (left.rescaled u.value) (m.rescaled u.value) (right.rescaled u.value)
      = (move sign left m right).rescaled u.value := by
  have htoward : (if 0.0 < sign then right.rescaled u.value else left.rescaled u.value)
      = (if 0.0 < sign then right else left).rescaled u.value := by
    split
    · rfl
    · rfl
  unfold move
  rw [parabolic_rescaled, htoward, linear_rescaled]
  simp only [rescaled, u.value_lt]
  split
  · rfl
  · rfl

theorem adjust_rescaled (left m right : Marker α) :
    adjust (left.rescaled u.value) (m.rescaled u.value) (right.rescaled u.value)
      = (adjust left m right).rescaled u.value := by
  unfold adjust
  dsimp only
  rw [move_rescaled]
  exact (apply_ite (rescaled u.value) _ _ _).symm

end Marker

namespace Markers

theorem enclose_rescaled (m : Markers α) (value : α) :
    (m.rescaled u.value).enclose (u.value value) = (m.enclose value).rescaled u.value := by
  unfold enclose
  simp only [rescaled, Marker.rescaled, u.value_lt, u.value_le]
  split
  · rfl
  · split
    · rfl
    · rfl

/-- The sample stands between the same markers. -/
theorem raiseAbove_rescaled (m : Markers α) (value : α) :
    (m.rescaled u.value).raiseAbove (u.value value) = (m.raiseAbove value).rescaled u.value := by
  unfold raiseAbove
  simp only [apply_ite (rescaled u.value)]
  simp only [rescaled, Marker.rescaled, u.value_lt, u.value_le]
  rfl

theorem drift_rescaled (m : Markers α) (p : α) :
    (m.rescaled u.value).drift p = (m.drift p).rescaled u.value := rfl

theorem adjust_rescaled (m : Markers α) :
    (m.rescaled u.value).adjust = m.adjust.rescaled u.value := by
  simp only [adjust, rescaled, Marker.adjust_rescaled]

/-- **One more sample.** -/
theorem collect_rescaled (p : α) (m : Markers α) (value : α) :
    (m.rescaled u.value).collect p (u.value value) = (m.collect p value).rescaled u.value := by
  unfold collect
  rw [raiseAbove_rescaled, enclose_rescaled, drift_rescaled, adjust_rescaled]

end Markers

/-! ## §2. Quantiles. -/

theorem sorted_rescaled (data : List α) :
    sorted (data.map u.value) = (sorted data).map u.value :=
  (List.map_mergeSort fun x _ y _ => (u.sortsBefore_value x y).symm).symm

/-- **The quantile of a small batch** is interpolated at the same place. -/
theorem sampleQuantile?_rescaled (data : List α) (p : α) :
    sampleQuantile? (data.map u.value) p = (sampleQuantile? data p).map u.value := by
  unfold sampleQuantile?
  rw [List.isEmpty_map, sorted_rescaled]
  split
  · rfl
  · dsimp only
    rw [List.length_map, List.getElem?_map, List.getElem?_map]
    generalize Scalar.ofNat ((sorted data).length - 1) * p = rank
    cases (sorted data)[Scalar.floor rank]? with
    | none => rfl
    | some a =>
      cases (sorted data)[Scalar.ceil rank]? with
      | none => rfl
      | some b =>
        show some (u.value a + _ * (u.value b - u.value a)) = some (u.value (a + _ * (b - a)))
        rw [u.value_sub, u.mul_span, u.value_add]

end Markers

/-- The progress with other samples and heights. -/
def Progress.rescaled (f : α → α) : Progress α → Progress α
  | gathering samples => gathering (samples.map f)
  | tracking count markers => tracking count (markers.rescaled f)

namespace QuantileEstimator

/-- The estimator with other samples and heights. -/
def rescaled (f : α → α) (q : QuantileEstimator α) : QuantileEstimator α :=
  { q with progress := q.progress.rescaled f }

variable (u : Rescaling α) (q : QuantileEstimator α)

theorem collect_rescaled (value : α) :
    (q.rescaled u.value).collect (u.value value) = (q.collect value).rescaled u.value := by
  obtain ⟨p, progress⟩ := q
  cases progress with
  | tracking count markers =>
    exact congrArg (fun m => QuantileEstimator.mk p (.tracking (count + 1) m))
      (Markers.collect_rescaled u p markers value)
  | gathering samples =>
    have happend : samples.map u.value ++ [u.value value] = (samples ++ [value]).map u.value := by
      rw [List.map_append]
      rfl
    unfold collect rescaled Progress.rescaled
    dsimp only
    rw [happend, List.length_map, sorted_rescaled]
    generalize sorted (samples ++ [value]) = ordered
    -- The fifth sample is told by the number of samples, which is the same.
    split
    case h_1 a b c d e hcount hfive =>
      simp only [List.map_eq_cons_iff, List.map_eq_nil_iff] at hfive
      obtain ⟨a, _, rfl, rfl, b, _, rfl, rfl, c, _, rfl, rfl, d, _, rfl, rfl, e, _, rfl, rfl,
        rfl⟩ := hfive
      rw [hcount]
      rfl
    case h_2 hnot =>
      split
      case h_1 a b c d e hcount => exact absurd rfl (hnot _ _ _ _ _ hcount)
      case h_2 => rfl

theorem estimate?_rescaled : (q.rescaled u.value).estimate? = q.estimate?.map u.value := by
  obtain ⟨p, progress⟩ := q
  cases progress with
  | gathering samples => exact sampleQuantile?_rescaled u samples p
  | tracking count markers => rfl

omit [Scalar α] in
theorem count_rescaled (f : α → α) : (q.rescaled f).count = q.count := by
  obtain ⟨p, progress⟩ := q
  cases progress with
  | gathering samples => exact List.length_map f
  | tracking count markers => rfl

end QuantileEstimator

/-! ## §3. Estimators. -/

/-- The mean on another scale. -/
def RunningMean.rescaled (f : α → α) (m : RunningMean α) : RunningMean α :=
  { m with mean := f m.mean }

/-- The estimator on another scale. -/
def Estimator.rescaled (f : α → α) : Estimator α → Estimator α
  | mean s => mean (s.rescaled f)
  | quantile s => quantile (s.rescaled f)

namespace Estimator

omit [Scalar α] in
theorem count_rescaled (f : α → α) (e : Estimator α) : (e.rescaled f).count = e.count := by
  cases e with
  | mean s => rfl
  | quantile s => exact s.count_rescaled f

section Scale

variable (u : Rescaling α) (e : Estimator α)

/-- **One more sample**: the way of a mean to it is rescaled as the sample is. -/
theorem collect_rescaled (value : α) :
    (e.rescaled u.value).collect (u.value value) = (e.collect value).rescaled u.value := by
  cases e with
  | mean s =>
    have hmean : (s.rescaled u.value).collect (u.value value)
        = (s.collect value).rescaled u.value := by
      unfold RunningMean.collect RunningMean.rescaled
      dsimp only
      rw [u.value_sub, u.span_div, u.value_add]
    exact congrArg mean hmean
  | quantile s => exact congrArg quantile (s.collect_rescaled u value)

/-- **The estimate from rescaled samples** is the rescaled estimate. -/
theorem collectMany_rescaled (values : List α) :
    (e.rescaled u.value).collectMany (values.map u.value)
      = (e.collectMany values).rescaled u.value := by
  unfold collectMany
  induction values generalizing e with
  | nil => rfl
  | cons value values ih =>
    rw [List.map_cons, List.foldl_cons, List.foldl_cons, collect_rescaled]
    exact ih _

theorem estimate?_rescaled : (e.rescaled u.value).estimate? = e.estimate?.map u.value := by
  cases e with
  | mean s =>
    show (if 0 < s.count then some (u.value s.mean) else none)
      = (if 0 < s.count then some s.mean else none).map u.value
    split
    · rfl
    · rfl
  | quantile s => exact s.estimate?_rescaled u

end Scale

variable (u : UnitChange α)

/-- An estimator without samples has no scale yet. -/
theorem rescaled_reset (e : Estimator α) : e.reset.rescaled u.value = e.reset := by
  cases e with
  | mean s =>
    show mean ⟨0, u.value 0.0⟩ = mean ⟨0, 0.0⟩
    rw [u.value_zero]
  | quantile s => rfl

theorem reset_rescaled (e : Estimator α) :
    (e.rescaled u.value).reset = e.reset.rescaled u.value := by
  rw [rescaled_reset]
  cases e with
  | mean s => rfl
  | quantile s => rfl

theorem rescaled_build {kind : EstimatorKind α} {e : Estimator α} (h : kind.build = .ok e) :
    e.rescaled u.value = e := by
  obtain ⟨_, hreset⟩ := kind_build h
  rw [← hreset]
  exact rescaled_reset u e

end Estimator

/-! ## §4. Smoothers. -/

/-- Level and trend in another unit. -/
def Trend.rescaled (f : α → α) : Trend α → Trend α
  | unseeded => unseeded
  | level l => level (f l)
  | trend l t => trend (f l) (f t)

/-- The smoother in another unit. -/
def Smoother.rescaled (f : α → α) : Smoother α → Smoother α
  | last level => last (level.map f)
  | single s => single { s with level := s.level.map f }
  | trend s => trend { s with state := s.state.rescaled f }
  | double s => double { s with stages := s.stages.map fun stages => (f stages.1, f stages.2) }

namespace Smoother

variable (u : UnitChange α) (s : Smoother α)

/-- **One more sample**: a weighted mean of values in one unit is in that unit. -/
theorem smooth_rescaled (value : α) :
    (s.rescaled u.value).smooth (u.value value) = (s.smooth value).rescaled u.value := by
  -- Levels and trends are all values, since the unit moves no origin.
  have hsub : ∀ x y, u.value x - u.value y = u.value (x - y) := fun x y => by
    rw [u.value_sub, u.span_eq]
  have hadd : ∀ x y, u.value x + u.value y = u.value (x + y) := fun x y => by
    rw [← u.span_eq y, u.value_add]
  have hmul : ∀ c x, c * u.value x = u.value (c * x) := fun c x => by
    rw [← u.span_eq x, u.mul_span, u.span_eq]
  cases s with
  | last level => rfl
  | single s =>
    obtain ⟨factor, level⟩ := s
    cases level with
    | none => rfl
    | some level =>
      simp only [rescaled, smooth, SingleSmoother.smooth, SingleSmoother.next, Option.map_some,
        hmul, hadd]
  | trend s =>
    obtain ⟨levelFactor, trendFactor, state⟩ := s
    cases state with
    | unseeded => rfl
    | level level => simp only [rescaled, smooth, TrendSmoother.smooth, Trend.rescaled, hsub]
    | trend level trend =>
      simp only [rescaled, smooth, TrendSmoother.smooth, Trend.rescaled, hsub, hadd, hmul]
  | double s =>
    obtain ⟨factor, stages⟩ := s
    cases stages with
    | none => rfl
    | some stages =>
      simp only [rescaled, smooth, DoubleSmoother.smooth, DoubleSmoother.next, Option.map_some,
        hadd, hmul]

theorem smoothMany_rescaled (values : List α) :
    (s.rescaled u.value).smoothMany (values.map u.value)
      = (s.smoothMany values).rescaled u.value := by
  unfold smoothMany
  induction values generalizing s with
  | nil => rfl
  | cons value values ih =>
    rw [List.map_cons, List.foldl_cons, List.foldl_cons, smooth_rescaled]
    exact ih _

theorem reset_rescaled : (s.rescaled u.value).reset = s.reset.rescaled u.value := by
  cases s with
  | _ => rfl

end Smoother

end CapacityControl.Stats
