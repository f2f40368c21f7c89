/-
  CapacityControl.Proofs.Stats.Trend
  ──────────────────────────────────
  FORECASTS OF A LINE.  On the samples of a line, what a smoother with a trend is off by goes
  through one linear step per sample.  For level-and-trend smoothing the step may swing, and
  neither offset shrinks all the time; but the square of the trend's offset and the square of the
  level's, weighted with both factors, together never grow, and two samples take a fixed share
  of them (`TrendSmoother.dissipates_next`).  For double smoothing each of the two stages lags
  behind for good, by known amounts, and what is left over vanishes
  (`DoubleSmoother.dissipates_next`).  So both settle on every line
  (`trend_smoothing_settles`, `double_smoothing_settles`).
-/
import CapacityControl.Proofs.Result
import CapacityControl.Proofs.Stats.Intake
import CapacityControl.Proofs.Stats.Settling

namespace CapacityControl.Stats

open Extended (finite)
open Intake (recent)

/-! ## §1. Lines. -/

/-- The first `n` samples of a line. -/
def onLine (base slope : Rat) (n : Nat) : List Extended :=
  (List.range n).map fun t => finite (base + slope * t)

theorem onLine_succ (base slope : Rat) (n : Nat) :
    onLine base slope (n + 1) = onLine base slope n ++ [finite (base + slope * n)] := by
  simp [onLine, List.range_succ]

namespace Smoother

/-- **A smoother settles on every line**: over more and more samples of a line, its forecast for
any horizon settles on what the line is going to be. -/
def SettlesOnLines (fresh : Smoother Extended) : Prop :=
  ∀ (base slope : Rat) (horizon : Nat),
    SettlesOn (fun n => (fresh.smoothMany (onLine base slope n)).forecast? horizon)
      fun n => base + slope * ((n : Rat) - 1 + horizon)

section Lines

variable {σ : Type} {fresh : Smoother Extended} {state : Rat → σ → Smoother Extended}
  {step : σ → σ} {base slope : Rat}

theorem smoothMany_onLine_succ (s : Smoother Extended) (base slope : Rat) (n : Nat) :
    s.smoothMany (onLine base slope (n + 1))
      = (s.smoothMany (onLine base slope n)).smooth (finite (base + slope * n)) := by
  rw [onLine_succ, smoothMany, List.foldl_append]
  rfl

/-- **The states along a line**, by the last sample and the offset from the line: if `first + 1`
samples lead to such a state, and from each the next sample of the line to another. -/
theorem smoothMany_onLine (first : Nat) {start : σ}
    (hfirst : fresh.smoothMany (onLine base slope (first + 1)) = state (base + slope * first) start)
    (hsmooth : ∀ x offset, (state x offset).smooth (finite (x + slope))
      = state (x + slope) (step offset)) (n : Nat) :
    fresh.smoothMany (onLine base slope (n + (first + 1)))
      = state (base + slope * (n + first)) (step^[n] start) := by
  induction n with
  | zero =>
    rw [Nat.zero_add, hfirst, Nat.cast_zero, zero_add]
    rfl
  | succ n ih =>
    have hsample : base + slope * ((n + (first + 1) : Nat) : Rat)
        = base + slope * (n + first) + slope := by
      push_cast
      ring
    have hlast : base + slope * ((n + 1 : Nat) + first)
        = base + slope * (n + first) + slope := by
      push_cast
      ring
    rw [Nat.add_right_comm, smoothMany_onLine_succ, ih, hsample, hsmooth, hlast,
      Function.iterate_succ_apply']

/-- **A smoother whose offset dissipates settles on the line.** -/
theorem settlesOn_line {energy : σ → Rat} {turn : Nat} {kept weight : Rat}
    (h : Dissipates step energy turn kept) (hweight : 0 ≤ weight) (first : Nat) {start : σ}
    (hfirst : fresh.smoothMany (onLine base slope (first + 1)) = state (base + slope * first) start)
    (hsmooth : ∀ x offset, (state x offset).smooth (finite (x + slope))
      = state (x + slope) (step offset)) {horizon : Nat}
    (hforecast : ∀ x offset, ∃ error,
      (state x offset).forecast? horizon = some (finite (x + slope * horizon + error))
        ∧ error ^ 2 ≤ weight * energy offset) :
    SettlesOn (fun n => (fresh.smoothMany (onLine base slope n)).forecast? horizon)
      fun n => base + slope * ((n : Rat) - 1 + horizon) := by
  refine .of_dissipates h hweight (first + 1) start fun n => ?_
  obtain ⟨error, hy, herror⟩ := hforecast (base + slope * (n + first)) (step^[n] start)
  have hdiff : base + slope * (n + first) + slope * horizon + error
      - (base + slope * (((n + (first + 1) : Nat) : Rat) - 1 + horizon)) = error := by
    push_cast
    ring
  refine ⟨_, ?_, hdiff.symm ▸ herror⟩
  rw [smoothMany_onLine first hfirst hsmooth]
  exact hy

end Lines

end Smoother

/-! ## §2. Level and trend. -/

namespace TrendSmoother

/-- How far a smoother on a line is off: its level from the last sample, its trend from the
slope. -/
structure Offset where
  level : Rat
  trend : Rat

/-- A smoother with the factors `a` of the level and `b` of the trend, on a line with the slope, at
the sample `x`. -/
def pursuing (a b slope x : Rat) (offset : Offset) : Smoother Extended :=
  .trend ⟨finite a, finite b, .trend (finite (x + offset.level)) (finite (slope + offset.trend))⟩

namespace Offset

/-- The offset after the next sample of the line. -/
def next (a b : Rat) (offset : Offset) : Offset :=
  ⟨(1 - a) * (offset.level + offset.trend),
    offset.trend - a * b * (offset.level + offset.trend)⟩

/-- The energy of an offset: the level counts with both factors, so that its products with the
trend cancel in the step. -/
def energy (a b : Rat) (offset : Offset) : Rat := offset.trend ^ 2 + a * b * offset.level ^ 2

end Offset

variable {a b : Rat}

theorem smooth_pursuing (a b slope x : Rat) (offset : Offset) :
    (pursuing a b slope x offset).smooth (finite (x + slope))
      = pursuing a b slope (x + slope) (offset.next a b) := by
  have hlevel : a * (x + slope) + (1 - a) * (x + offset.level + (slope + offset.trend))
      = x + slope + (offset.next a b).level := by
    simp only [Offset.next]
    ring
  have htrend : b * (x + slope + (offset.next a b).level - (x + offset.level))
      + (1 - b) * (slope + offset.trend) = slope + (offset.next a b).trend := by
    simp only [Offset.next]
    ring
  simp [pursuing, Smoother.smooth, smooth, hlevel, htrend]

theorem forecast?_pursuing (a b slope x : Rat) (offset : Offset) (horizon : Nat) :
    (pursuing a b slope x offset).forecast? horizon
      = some (finite (x + slope * horizon + (offset.level + horizon * offset.trend))) := by
  have herror : x + offset.level + horizon * (slope + offset.trend)
      = x + slope * horizon + (offset.level + horizon * offset.trend) := by
    ring
  simp [pursuing, Smoother.forecast?, forecast?, herror]

/-- **What a sample takes from the energy.** -/
theorem energy_next (a b : Rat) (offset : Offset) :
    (offset.next a b).energy a b = offset.energy a b - a * b * offset.trend ^ 2
      - a * b * (a * (2 - a - b)) * (offset.level + offset.trend) ^ 2 := by
  simp only [Offset.next, Offset.energy]
  ring

section Factors

variable (ha : 0 < a) (ha1 : a ≤ 1) (hb : 0 < b) (hb1 : b ≤ 1)

include ha ha1 hb hb1

theorem energy_next_le (offset : Offset) :
    (offset.next a b).energy a b ≤ offset.energy a b - a * b * offset.trend ^ 2 := by
  rw [energy_next]
  have hspare : 0 ≤ a * (2 - a - b) := mul_nonneg ha.le (by linarith)
  exact sub_le_self _ (mul_nonneg (mul_nonneg (mul_pos ha hb).le hspare) (sq_nonneg _))

/-- **The energy shows in two trends**: that before a sample and that after it. -/
theorem energy_le_trends (offset : Offset) :
    a * b * offset.energy a b ≤ 3 * (offset.trend ^ 2 + (offset.next a b).trend ^ 2) := by
  have hk : 0 < a * b := mul_pos ha hb
  have hk1 : a * b ≤ 1 := mul_le_one₀ ha1 hb.le hb1
  -- The level's offset is what the sample takes from the trend's.
  have hlevel : a * b * offset.level
      = (1 - a * b) * offset.trend - (offset.next a b).trend := by
    simp only [Offset.next]
    ring
  have htrend : ((1 - a * b) * offset.trend) ^ 2 ≤ offset.trend ^ 2 := by
    rw [mul_pow]
    exact mul_le_of_le_one_left (sq_nonneg _) (pow_le_one₀ (by linarith) (by linarith))
  have hsquare : (a * b * offset.level) ^ 2
      ≤ 2 * offset.trend ^ 2 + 2 * (offset.next a b).trend ^ 2 := by
    rw [hlevel]
    linarith [sq_nonneg ((1 - a * b) * offset.trend + (offset.next a b).trend)]
  have hfirst : a * b * offset.trend ^ 2 ≤ offset.trend ^ 2 :=
    mul_le_of_le_one_left (sq_nonneg _) hk1
  calc a * b * offset.energy a b
      = a * b * offset.trend ^ 2 + (a * b * offset.level) ^ 2 := by
        unfold Offset.energy
        ring
    _ ≤ 3 * (offset.trend ^ 2 + (offset.next a b).trend ^ 2) := by
        linarith [sq_nonneg (offset.next a b).trend]

/-- **Two samples take a fixed share of the energy**, and none adds to it.  One sample need not take
any: with both factors one, it only turns an offset of the level into one of the trend. -/
theorem dissipates_next :
    Dissipates (Offset.next a b) (Offset.energy a b) 2 (1 - (a * b) ^ 2 / 3) := by
  have hk : 0 < a * b := mul_pos ha hb
  have hk1 : (a * b) ^ 2 ≤ 1 := pow_le_one₀ hk.le (mul_le_one₀ ha1 hb.le hb1)
  refine ⟨fun offset => ?_, by linarith, by linarith [pow_pos hk 2], fun offset => ?_,
    fun offset => ?_⟩
  · exact add_nonneg (sq_nonneg _) (mul_nonneg hk.le (sq_nonneg _))
  · refine (energy_next_le ha ha1 hb hb1 offset).trans (sub_le_self _ ?_)
    exact mul_nonneg hk.le (sq_nonneg _)
  · -- Each sample takes what the trend shows, and two trends show all of the energy.
    have htrends := mul_le_mul_of_nonneg_left (energy_le_trends ha ha1 hb hb1 offset) hk.le
    calc ((offset.next a b).next a b).energy a b
        ≤ (offset.next a b).energy a b - a * b * (offset.next a b).trend ^ 2 :=
          energy_next_le ha ha1 hb hb1 _
      _ ≤ offset.energy a b - a * b * offset.trend ^ 2 - a * b * (offset.next a b).trend ^ 2 :=
          sub_le_sub_right (energy_next_le ha ha1 hb hb1 offset) _
      _ ≤ (1 - (a * b) ^ 2 / 3) * offset.energy a b := by linarith

omit ha1 hb1 in
/-- **The error of a forecast** is bounded by the energy. -/
theorem error_sq_le (offset : Offset) (horizon : Nat) :
    (offset.level + horizon * offset.trend) ^ 2
      ≤ ((a * b)⁻¹ + (horizon : Rat) ^ 2) * offset.energy a b := by
  have hk : 0 < a * b := mul_pos ha hb
  -- By Cauchy's inequality, with the weights that make a square of what the bound has to spare.
  have hspare : ((a * b)⁻¹ + (horizon : Rat) ^ 2) * offset.energy a b
      - (offset.level + horizon * offset.trend) ^ 2
        = (a * b)⁻¹ * (offset.trend - horizon * (a * b) * offset.level) ^ 2 := by
    unfold Offset.energy
    field_simp
    ring
  have hnonneg := mul_nonneg (inv_pos.mpr hk).le
    (sq_nonneg (offset.trend - horizon * (a * b) * offset.level))
  linarith

end Factors

/-- **Level-and-trend smoothing settles on every line**, with any factors that are accepted. -/
theorem trend_smoothing_settles (ha : 0 < a) (ha1 : a ≤ 1) (hb : 0 < b) (hb1 : b ≤ 1) :
    ∃ fresh, TrendSmoother.new (finite a) (finite b) = .ok fresh
      ∧ (Smoother.trend fresh).SettlesOnLines := by
  refine ⟨⟨finite a, finite b, .unseeded⟩, ?_, fun base slope horizon => ?_⟩
  · unfold TrendSmoother.new
    rw [Extended.ensureFactor_finite ha ha1, Extended.ensureFactor_finite hb hb1]
    rfl
  · have hweight : 0 ≤ (a * b)⁻¹ + (horizon : Rat) ^ 2 :=
      add_nonneg (inv_pos.mpr (mul_pos ha hb)).le (sq_nonneg _)
    -- The second sample only sets the trend: the level stays where the first one was.
    have hsecond : (Smoother.trend ⟨finite a, finite b, .unseeded⟩).smoothMany (onLine base slope 2)
        = pursuing a b slope (base + slope * (1 : Nat)) ⟨-slope, 0⟩ := by
      simp [onLine, List.range_succ, Smoother.smoothMany, Smoother.smooth, smooth, pursuing]
    exact Smoother.settlesOn_line (dissipates_next ha ha1 hb hb1) hweight 1 hsecond
      (smooth_pursuing a b slope) fun x offset =>
        ⟨_, forecast?_pursuing a b slope x offset horizon, error_sq_le ha hb offset horizon⟩

/-- With the factors `4/5` and `1/2` the forecast for the next sample of the odd numbers comes
within a millionth of it. -/
theorem trend_smoothing_settles_odd :
    0 < (4 / 5 : Rat) ∧ (4 / 5 : Rat) ≤ 1 ∧ 0 < (1 / 2 : Rat) ∧ (1 / 2 : Rat) ≤ 1
      ∧ ∃ fresh, TrendSmoother.new (finite (4 / 5)) (finite (1 / 2)) = .ok fresh
        ∧ (Smoother.trend fresh).SettlesOnLines
        ∧ ∃ first, ∀ n ≥ first, ∃ y,
          ((Smoother.trend fresh).smoothMany (onLine 1 2 n)).forecast? 1 = some (finite y)
            ∧ |y - (1 + 2 * ((n : Rat) - 1 + (1 : Nat)))| < 1 / 1000000 := by
  have ha : 0 < (4 / 5 : Rat) := by norm_num
  have ha1 : (4 / 5 : Rat) ≤ 1 := by norm_num
  obtain ⟨fresh, hnew, hsettles⟩ :=
    trend_smoothing_settles ha ha1 one_half_pos one_half_lt_one.le
  exact ⟨ha, ha1, one_half_pos, one_half_lt_one.le, fresh, hnew, hsettles,
    hsettles 1 2 1 _ (by norm_num)⟩

end TrendSmoother

/-! ## §3. Two stages. -/

namespace DoubleSmoother

/-- A smoother without samples, with the factor `a`. -/
def unseeded (a : Rat) : Smoother Extended := .double ⟨finite a, none⟩

/-- A smoother with rational stages. -/
def staged (a first second : Rat) : Smoother Extended :=
  .double ⟨finite a, some (finite first, finite second)⟩

/-- How far the two stages of a smoother on a line are off the lags that they keep for good. -/
structure Offset where
  first : Rat
  second : Rat

/-- A smoother on a line with the slope, at the sample `x`: each stage lags behind what it smooths
by what the slope gains while the factor catches up. -/
def pursuing (a slope x : Rat) (offset : Offset) : Smoother Extended :=
  staged a (x - slope * (1 - a) / a + offset.first) (x - 2 * (slope * (1 - a) / a) + offset.second)

namespace Offset

/-- The offset after the next sample of the line. -/
def next (a : Rat) (offset : Offset) : Offset :=
  ⟨(1 - a) * offset.first, (1 - a) * (offset.second + a * offset.first)⟩

/-- The energy of an offset. -/
def energy (offset : Offset) : Rat := offset.first ^ 2 + offset.second ^ 2

/-- What a forecast is off by. -/
def error (a : Rat) (horizon : Nat) (offset : Offset) : Rat :=
  (2 + horizon * (a / (1 - a))) * offset.first - (1 + horizon * (a / (1 - a))) * offset.second

end Offset

variable {a : Rat}

theorem new_finite (h0 : 0 < a) (h1 : a < 1) :
    DoubleSmoother.new (finite a) = .ok ⟨finite a, none⟩ :=
  map_eq_ok_iff.mpr ⟨_, Extended.ensureInterior_finite h0 h1 _, rfl⟩

theorem smooth_staged (a first second value : Rat) :
    (staged a first second).smooth (finite value)
      = staged a (a * value + (1 - a) * first)
        (a * (a * value + (1 - a) * first) + (1 - a) * second) := by
  simp [staged, Smoother.smooth, smooth, next]

theorem levelOf_finite (first second : Rat) :
    levelOf (finite first, finite second) = finite (2 * first - second) := by
  rw [levelOf, Extended.two_eq, Extended.finite_mul, Extended.finite_sub]

theorem level?_staged (a first second : Rat) :
    (staged a first second).level? = some (finite (2 * first - second)) :=
  congrArg some (levelOf_finite first second)

theorem forecast?_staged (ha1 : a ≠ 1) (first second : Rat) (horizon : Nat) :
    (staged a first second).forecast? horizon = some (finite
      (2 * first - second + horizon * (a / (1 - a) * (first - second)))) := by
  have hodds := Extended.finite_div a (1 - a) (sub_ne_zero.mpr ha1.symm)
  simp [staged, Smoother.forecast?, forecast?, levelOf_finite, trendOf, hodds]

/-- Once there is a sample, the stages are rational. -/
theorem exists_staged (a : Rat) (past : List (Intake Rat)) (value : Rat) :
    ∃ first second, ((unseeded a).fed past).smooth (finite value) = staged a first second := by
  rw [Smoother.fed_eq rfl]
  induction recent past using List.reverseRecOn generalizing value with
  | nil => exact ⟨value, value, rfl⟩
  | append_singleton front last ih =>
    obtain ⟨first, second, hstaged⟩ := ih last
    rw [List.map_append, Smoother.smoothMany, List.foldl_append]
    exact ⟨_, _, (congrArg (Smoother.smooth · (finite value)) hstaged).trans (smooth_staged ..)⟩

theorem smooth_pursuing (ha : a ≠ 0) (slope x : Rat) (offset : Offset) :
    (pursuing a slope x offset).smooth (finite (x + slope))
      = pursuing a slope (x + slope) (offset.next a) := by
  have hfirst : a * (x + slope) + (1 - a) * (x - slope * (1 - a) / a + offset.first)
      = x + slope - slope * (1 - a) / a + (offset.next a).first := by
    simp only [Offset.next]
    field_simp
    ring
  have hsecond : a * (x + slope - slope * (1 - a) / a + (offset.next a).first)
      + (1 - a) * (x - 2 * (slope * (1 - a) / a) + offset.second)
        = x + slope - 2 * (slope * (1 - a) / a) + (offset.next a).second := by
    simp only [Offset.next]
    field_simp
    ring
  rw [pursuing, smooth_staged, hfirst, hsecond, pursuing]

theorem forecast?_pursuing (ha : a ≠ 0) (ha1 : a ≠ 1) (slope x : Rat) (offset : Offset)
    (horizon : Nat) :
    (pursuing a slope x offset).forecast? horizon
      = some (finite (x + slope * horizon + offset.error a horizon)) := by
  have hrest : 1 - a ≠ 0 := sub_ne_zero.mpr ha1.symm
  rw [pursuing, forecast?_staged ha1]
  -- The level makes up for one lag, and the trend for what is left of it.
  refine congrArg (fun y => some (finite y)) ?_
  unfold Offset.error
  field_simp
  ring

/-- **What a sample takes from the energy.** -/
theorem energy_next (a : Rat) (offset : Offset) :
    (offset.next a).energy = (1 - a) * offset.energy
      - (1 - a) * a * ((offset.second - (1 - a) * offset.first) ^ 2 + a * offset.first ^ 2) := by
  simp only [Offset.next, Offset.energy]
  ring

/-- **A sample keeps of the energy at most what the factor leaves over.** -/
theorem dissipates_next (h0 : 0 < a) (h1 : a < 1) :
    Dissipates (Offset.next a) Offset.energy 1 (1 - a) := by
  have hrest : 0 ≤ 1 - a := sub_nonneg.mpr h1.le
  refine .of_step (fun offset => add_nonneg (sq_nonneg _) (sq_nonneg _)) hrest
    (sub_lt_self 1 h0) fun offset => ?_
  -- Beside the share of the factor, a sample takes a sum of two squares.
  rw [energy_next]
  exact sub_le_self _ (mul_nonneg (mul_nonneg hrest h0.le)
    (add_nonneg (sq_nonneg _) (mul_nonneg h0.le (sq_nonneg _))))

/-- **The error of a forecast** is bounded by the energy. -/
theorem error_sq_le (a : Rat) (horizon : Nat) (offset : Offset) :
    offset.error a horizon ^ 2
      ≤ ((2 + horizon * (a / (1 - a))) ^ 2 + (1 + horizon * (a / (1 - a))) ^ 2)
        * offset.energy := by
  unfold Offset.error Offset.energy
  linarith [sq_nonneg ((2 + horizon * (a / (1 - a))) * offset.second
    + (1 + horizon * (a / (1 - a))) * offset.first)]

/-- **Double smoothing settles on every line**, with any factor that is accepted, and the level that
a sample leads to is the forecast of now. -/
theorem double_smoothing_settles (h0 : 0 < a) (h1 : a < 1) :
    ∃ fresh, DoubleSmoother.new (finite a) = .ok fresh
      ∧ (Smoother.double fresh).SettlesOnLines
      ∧ ∀ (past : List (Intake Rat)) (value : Rat), ∃ y,
        (((Smoother.double fresh).fed past).smooth (finite value)).level? = some (finite y)
          ∧ (((Smoother.double fresh).fed past).smooth (finite value)).forecast? 0
            = some (finite y) := by
  refine ⟨_, new_finite h0 h1, fun base slope horizon => ?_, fun past value => ?_⟩
  · -- The first sample sets both stages, so that at first both lags are missing.
    have hfirst : (unseeded a).smoothMany (onLine base slope 1)
        = pursuing a slope (base + slope * (0 : Nat))
          ⟨slope * (1 - a) / a, 2 * (slope * (1 - a) / a)⟩ := by
      simp [onLine, Smoother.smoothMany, Smoother.smooth, smooth, next, unseeded, pursuing, staged]
    exact Smoother.settlesOn_line (dissipates_next h0 h1)
      (add_nonneg (sq_nonneg _) (sq_nonneg _)) 0 hfirst (smooth_pursuing h0.ne' slope)
      fun x offset => ⟨_, forecast?_pursuing h0.ne' h1.ne slope x offset horizon,
        error_sq_le a horizon offset⟩
  · obtain ⟨first, second, hstaged⟩ := exists_staged a past value
    refine ⟨2 * first - second, ?_, ?_⟩
    · exact (congrArg Smoother.level? hstaged).trans (level?_staged a first second)
    · refine (congrArg (Smoother.forecast? · 0) hstaged).trans ?_
      rw [forecast?_staged h1.ne, Nat.cast_zero, zero_mul, add_zero]

/-- With the factor `1/2` the forecast for the next sample of the whole numbers comes within a
millionth of it; and after a batch, a reset and a sample the next one is answered by the forecast
of now. -/
theorem double_smoothing_settles_whole : 0 < (1 / 2 : Rat) ∧ (1 / 2 : Rat) < 1
    ∧ ∃ fresh, DoubleSmoother.new (finite (1 / 2)) = .ok fresh
      ∧ (Smoother.double fresh).SettlesOnLines
      ∧ (∃ first, ∀ n ≥ first, ∃ y,
        ((Smoother.double fresh).smoothMany (onLine 0 1 n)).forecast? 1 = some (finite y)
          ∧ |y - (0 + 1 * ((n : Rat) - 1 + (1 : Nat)))| < 1 / 1000000)
      ∧ ∃ y, (((Smoother.double fresh).fed [.batch [4, 1], .reset, .sample 2]).smooth
            (finite 7)).level? = some (finite y)
          ∧ (((Smoother.double fresh).fed [.batch [4, 1], .reset, .sample 2]).smooth
            (finite 7)).forecast? 0 = some (finite y) := by
  obtain ⟨fresh, hnew, hsettles, hanswers⟩ :=
    double_smoothing_settles one_half_pos one_half_lt_one
  exact ⟨one_half_pos, one_half_lt_one, fresh, hnew, hsettles, hsettles 0 1 1 _ (by norm_num),
    hanswers _ _⟩

end DoubleSmoother

end CapacityControl.Stats
