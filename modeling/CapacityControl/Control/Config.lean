/-
  CapacityControl.Control.Config
  ──────────────────────────────
  CONFIGURATIONS say at which periods a manager samples and controls, what it aims at,
  and where it logs.  A configuration is checked as a whole before it is used.  It is then
  taken over by changes, one after the other, each of which may still be refused.
-/
import CapacityControl.Control.Error
import CapacityControl.Control.Intervals
import CapacityControl.Stats.Estimator
import CapacityControl.Stats.Smoother

namespace CapacityControl.Control

open Stats

variable {α : Type} [Scalar α]

/-! ## §1. Targets. -/

/-- What is required of a metric, and how the metric is estimated. -/
structure Target (α : Type) where
  value : α
  estimator : EstimatorKind α
  deriving BEq

/-- Accepts a target value: a number other than zero, since relative errors divide by it. -/
def checkTarget (value : α) : Except (Error α) α := do
  let value ← (ensureFinite "target value" value).mapError .ofValue
  if value == 0.0 then .error (.violated .targetNonZero) else .ok value

/-- Checks the value of a target, then its estimator. -/
def Target.check (t : Target α) : Except (Error α) Unit := do
  let _ ← checkTarget t.value
  let _ ← required t.estimator.build
  pure ()

/-! ## §2. Configurations. -/

/-- The settings of a manager. -/
structure Config (α : Type) where
  samplingMs : α
  controlMs : α
  /-- The factor of the smoothers of utilisations. -/
  smoothingFactor : α
  dataLog : Option String
  targets : PerMetric (Option (Target α))
  /-- Whether estimates begin anew after each control. -/
  resetsEachInterval : Bool
  deriving BEq

namespace Config

/-- The factor of a configuration that gives none. -/
def standardFactor : α := 0.9

/-- **Checks a configuration**: the periods, the smoothing factor, then the targets in the
order of the metrics.  The first violation counts. -/
def check (c : Config α) : Except (Error α) Unit := do
  let _ ← required (Intervals.new c.samplingMs c.controlMs)
  let _ ← required (ensureFactor .smoothingFactor c.smoothingFactor)
  c.targets.entries.forM fun (_, t) => t.check

end Config

/-! ## §3. Changes. -/

section Changes

variable {σ α : Type}

/-- A change that may be refused. -/
abbrev Change (σ α : Type) := σ → Except (Error α) σ

/-- What changes leave behind, whether all of them were made or not. -/
structure Changed (σ α : Type) where
  state : σ
  result : Except (Error α) Unit

/-- **Makes changes one after the other**, up to the first that is refused.  What was changed
before it stays changed. -/
def inTurn : List (Change σ α) → σ → Changed σ α
  | [], s => ⟨s, .ok ()⟩
  | change :: changes, s =>
    match change s with
    | .error e => ⟨s, .error e⟩
    | .ok s => inTurn changes s

end Changes

end CapacityControl.Control
