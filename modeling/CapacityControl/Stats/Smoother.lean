/-
  CapacityControl.Stats.Smoother
  ──────────────────────────────
  SMOOTHERS turn a noisy series into a level, and some also into a trend, from which the
  series is forecast any number of steps ahead.  Before the first sample there is no
  forecast.  Four smoothers are offered: the last value, single exponential smoothing,
  Holt's level-and-trend smoothing, and Brown's double exponential smoothing.
-/
import CapacityControl.Requirement

namespace CapacityControl.Stats

variable {α : Type} [Scalar α]

/-! ## §1. Single exponential smoothing. -/

/-- The level is a weighted mean of the sample, with weight `factor`, and the level before;
the first sample is the first level. -/
structure SingleSmoother (α : Type) where
  factor : α
  level : Option α

namespace SingleSmoother

/-- A smoother without samples; the factor has to lie in `(0, 1]`. -/
def new (factor : α) : Except Requirement (SingleSmoother α) :=
  (ensureFactor .smoothingFactor factor).map fun f => ⟨f, none⟩

/-- The level after a sample. -/
def next (s : SingleSmoother α) (value : α) : α :=
  match s.level with
  | none => value
  | some level => s.factor * value + (1.0 - s.factor) * level

/-- Takes in one sample. -/
def smooth (s : SingleSmoother α) (value : α) : SingleSmoother α :=
  { s with level := some (s.next value) }

/-- The forecast is the level, however far ahead. -/
def forecast? (s : SingleSmoother α) (_horizon : Nat) : Option α := s.level

/-- Forgets every sample. -/
def reset (s : SingleSmoother α) : SingleSmoother α := { s with level := none }

end SingleSmoother

/-! ## §2. Level and trend. -/

/-- What a level-and-trend smoother has seen: nothing, one sample, or enough for a trend. -/
inductive Trend (α : Type) where
  | unseeded
  | level (level : α)
  | trend (level trend : α)

/-- Holt's smoothing: the level is smoothed with `levelFactor`, its change with
`trendFactor`.  The second sample only sets the trend. -/
structure TrendSmoother (α : Type) where
  levelFactor : α
  trendFactor : α
  state : Trend α

namespace TrendSmoother

/-- A smoother without samples; both factors have to lie in `(0, 1]`. -/
def new (levelFactor trendFactor : α) : Except Requirement (TrendSmoother α) := do
  let a ← ensureFactor .levelFactor levelFactor
  let b ← ensureFactor .trendFactor trendFactor
  pure ⟨a, b, .unseeded⟩

/-- Both factors from one discount `d`: `1 - (1 - d)²` and `d²` divided by that. -/
def ofDiscount (discount : α) : Except Requirement (TrendSmoother α) := do
  let d ← ensureFactor .discountFactor discount
  let a := 1.0 - (1.0 - d) * (1.0 - d)
  new a (d * d / a)

/-- Takes in one sample. -/
def smooth (s : TrendSmoother α) (value : α) : TrendSmoother α :=
  { s with
    state := match s.state with
      | .unseeded => .level value
      | .level level => .trend level (value - level)
      | .trend level trend =>
        let next := s.levelFactor * value + (1.0 - s.levelFactor) * (level + trend)
        .trend next (s.trendFactor * (next - level) + (1.0 - s.trendFactor) * trend) }

/-- The level. -/
def level? (s : TrendSmoother α) : Option α :=
  match s.state with
  | .unseeded => none
  | .level level => some level
  | .trend level _ => some level

/-- The level and `horizon` times the trend. -/
def forecast? (s : TrendSmoother α) (horizon : Nat) : Option α :=
  match s.state with
  | .unseeded => none
  | .level level => some (level + Scalar.ofNat horizon * 0.0)
  | .trend level trend => some (level + Scalar.ofNat horizon * trend)

/-- Forgets every sample. -/
def reset (s : TrendSmoother α) : TrendSmoother α := { s with state := .unseeded }

end TrendSmoother

/-! ## §3. Double exponential smoothing. -/

/-- Brown's smoothing: the series is smoothed twice with the same factor, and level and
trend are read off the two results. -/
structure DoubleSmoother (α : Type) where
  factor : α
  stages : Option (α × α)

namespace DoubleSmoother

/-- A smoother without samples; the factor has to lie in `(0, 1)`. -/
def new (factor : α) : Except Requirement (DoubleSmoother α) :=
  (ensureInterior .openSmoothingFactor factor).map fun f => ⟨f, none⟩

/-- Both stages after a sample; the first sample sets both. -/
def next (s : DoubleSmoother α) (value : α) : α × α :=
  match s.stages with
  | none => (value, value)
  | some (first, second) =>
    let first := s.factor * value + (1.0 - s.factor) * first
    (first, s.factor * first + (1.0 - s.factor) * second)

/-- Takes in one sample. -/
def smooth (s : DoubleSmoother α) (value : α) : DoubleSmoother α :=
  { s with stages := some (s.next value) }

/-- The level: twice the first stage less the second. -/
def levelOf (stages : α × α) : α := 2.0 * stages.1 - stages.2

/-- The trend: the distance of the stages, scaled by the odds of the factor. -/
def trendOf (s : DoubleSmoother α) (stages : α × α) : α :=
  s.factor / (1.0 - s.factor) * (stages.1 - stages.2)

/-- The level and `horizon` times the trend. -/
def forecast? (s : DoubleSmoother α) (horizon : Nat) : Option α :=
  s.stages.map fun stages => levelOf stages + Scalar.ofNat horizon * s.trendOf stages

/-- Forgets every sample. -/
def reset (s : DoubleSmoother α) : DoubleSmoother α := { s with stages := none }

end DoubleSmoother

/-! ## §4. Smoothers. -/

/-- A smoother with what it has seen. -/
inductive Smoother (α : Type) where
  /-- The last sample is the level. -/
  | last (level : Option α)
  | single (state : SingleSmoother α)
  | trend (state : TrendSmoother α)
  | double (state : DoubleSmoother α)

namespace Smoother

/-- Takes in one sample. -/
def smooth (s : Smoother α) (value : α) : Smoother α :=
  match s with
  | last _ => last (some value)
  | single s => single (s.smooth value)
  | trend s => trend (s.smooth value)
  | double s => double (s.smooth value)

/-- The level. -/
def level? : Smoother α → Option α
  | last level => level
  | single s => s.level
  | trend s => s.level?
  | double s => s.stages.map DoubleSmoother.levelOf

/-- The value expected `horizon` steps ahead. -/
def forecast? (s : Smoother α) (horizon : Nat) : Option α :=
  match s with
  | last level => level
  | single s => s.forecast? horizon
  | trend s => s.forecast? horizon
  | double s => s.forecast? horizon

/-- Takes in a batch, in order. -/
def smoothMany (s : Smoother α) (values : List α) : Smoother α := values.foldl smooth s

/-- What a batch reports: the level it leads to, or the forecast of now if it is empty. -/
def batchLevel? (s : Smoother α) (values : List α) : Option α :=
  if values.isEmpty then s.forecast? 0 else (s.smoothMany values).level?

/-- Forgets every sample. -/
def reset : Smoother α → Smoother α
  | last _ => last none
  | single s => single s.reset
  | trend s => trend s.reset
  | double s => double s.reset

/-- The factors of single and of level-and-trend smoothing. -/
def factors : Smoother α → List α
  | single s => [s.factor]
  | trend s => [s.levelFactor, s.trendFactor]
  | _ => []

end Smoother

end CapacityControl.Stats
