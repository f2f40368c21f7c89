/-
  CapacityControl.Control.Core
  ────────────────────────────
  WHAT EVERY MANAGER HAS: its settings, and the statistics of the application's metrics.
  A metric with a target has an estimator; any metric may have a smoother as well.  A
  configuration changes the settings one after the other.
-/
import CapacityControl.Control.Config
import CapacityControl.Control.Machine
import CapacityControl.Control.Warning

namespace CapacityControl.Control

open Stats

variable {α : Type} [Scalar α]

/-! ## §1. Readings of targets. -/

/-- A metric with a target, and what is known of it. -/
structure TargetReading (α : Type) where
  metric : Metric
  target : α
  /-- The estimate, unless nothing was observed since the estimator was reset. -/
  estimate : Option α

/-- How far the estimate is on the good side of the target. -/
def TargetReading.error? (r : TargetReading α) : Option α :=
  r.estimate.map (r.metric.relativeError r.target)

/-! ## §2. The core. -/

/-- Settings and statistics. -/
structure Core (α : Type) where
  intervals : Intervals α
  /-- Whether the manager knows the application. -/
  bound : Bool
  targets : PerMetric (Option α)
  estimators : PerMetric (Option (Estimator α))
  smoothers : PerMetric (Option (Smoother α))
  dataLog : Option String
  resetsEachInterval : Bool

namespace Core

/-- A core without targets and without application. -/
def initial : Core α := ⟨.standard, false, .const none, .const none, .const none, none, true⟩

/-- Makes the application known. -/
def bind (c : Core α) : Core α := { c with bound := true }

/-- Sets the target of a metric; a metric without estimator gets a mean. -/
def withTarget (c : Core α) (m : Metric) (value : α) : Except (Error α) (Core α) := do
  let value ← checkTarget value
  pure { c with
    targets := c.targets.set m (some value)
    estimators := c.estimators.modify m fun e => some (e.getD (.mean .empty)) }

/-- Removes every target. -/
def withoutTargets (c : Core α) : Core α := { c with targets := .const none }

/-- Sets the estimator of a metric. -/
def withEstimator (c : Core α) (m : Metric) (e : Estimator α) : Core α :=
  { c with estimators := c.estimators.set m (some e) }

/-- Sets the smoother of a metric. -/
def withSmoother (c : Core α) (m : Metric) (s : Smoother α) : Core α :=
  { c with smoothers := c.smoothers.set m (some s) }

end Core

/-! ## §3. Configuring. -/

/-- The changes that a target makes: a fresh estimator, then the value. -/
def Target.changes (t : Target α) (m : Metric) : List (Change (Core α) α) :=
  [fun c => (required t.estimator.build).map (c.withEstimator m),
    fun c => c.withTarget m t.value]

/-- **The changes that a configuration makes**, in order.  Its targets take the place of all that
there were.  Each change checks its own argument. -/
def Config.changes (config : Config α) : List (Change (Core α) α) :=
  let periods : List (Change (Core α) α) :=
    [fun c => (required (c.intervals.withSampling config.samplingMs)).map fun i =>
        { c with intervals := i },
      fun c => (required (c.intervals.withControl config.controlMs)).map fun i =>
        { c with intervals := i }]
  let targets : List (Change (Core α) α) :=
    (fun c => .ok c.withoutTargets) :: config.targets.entries.flatMap fun (m, t) => t.changes m
  let others : List (Change (Core α) α) :=
    [fun c => .ok { c with dataLog := config.dataLog },
      fun c => .ok { c with resetsEachInterval := config.resetsEachInterval }]
  periods ++ targets ++ others

namespace Core

/-! ## §4. Statistics. -/

/-- Whether any metric has a target. -/
def hasTarget (c : Core α) : Bool := !c.targets.entries.isEmpty

/-- Forgets what was observed. -/
def resetStatistics (c : Core α) : Core α :=
  { c with
    estimators := c.estimators.map (·.map Estimator.reset)
    smoothers := c.smoothers.map (·.map Smoother.reset) }

/-- Closes an interval. -/
def endInterval (c : Core α) : Core α :=
  if c.resetsEachInterval then { c with estimators := c.estimators.map (·.map Estimator.reset) }
  else c

/-- Takes in the readings of a metric. -/
def collect (c : Core α) (m : Metric) (values : List α) : Core α :=
  { c with
    estimators := c.estimators.modify m (·.map (·.collectMany values))
    smoothers := c.smoothers.modify m (·.map (·.smoothMany values)) }

/-- The estimate of a metric, if it has an estimator that has seen anything. -/
def estimate? (c : Core α) (m : Metric) : Option α :=
  ((c.estimators.get m).filter (0 < ·.count)).bind Estimator.estimate?

/-- What is known of each metric with a target, in the order of the metrics. -/
def readings (c : Core α) : List (TargetReading α) :=
  c.targets.entries.map fun (m, target) => ⟨m, target, c.estimate? m⟩

/-! ## §5. The sensors of the application. -/

/-- Finds the sensors of the metrics with a target. -/
def wire (c : Core α) (t : Testbed α) : Except WiringFault (PerMetric Bool) :=
  match c.targets.entries.find? fun (m, _) => !t.offers.get m with
  | some (m, _) => .error (.noMetricSensor m)
  | none => .ok (c.targets.map Option.isSome)

/-- What reading the application's sensors leaves behind. -/
structure Polled (α : Type) where
  core : Core α
  testbed : Testbed α
  warnings : List (Warning α)

/-- Reads the sensor of one metric. -/
def sampleMetric (s : Polled α) (m : Metric) : Polled α :=
  let (poll, sensor) := (s.testbed.outputs.get m).read
  { core := if poll.values.isEmpty then s.core else s.core.collect m poll.values
    testbed := s.testbed.withOutput m fun _ => sensor
    warnings := s.warnings ++ poll.warnings m.name }

/-- Reads the sensors that were found, in the order of the metrics. -/
def sample (c : Core α) (t : Testbed α) (wired : PerMetric Bool) : Polled α :=
  (Metric.all.filter wired.get).foldl sampleMetric ⟨c, t, []⟩

end Core

end CapacityControl.Control
