/-
  CapacityControl.Control.Monitor
  ───────────────────────────────
  THE MONITOR samples and logs, and never changes a share: the baseline to compare a
  controller with.  A control with an estimate for every target counts as applied, any
  other as skipped.
-/
import CapacityControl.Control.Columns
import CapacityControl.Control.Step

namespace CapacityControl.Control

open Log

variable {α : Type} [Scalar α]

/-- The monitor. -/
structure Monitor (α : Type) where
  counters : Counters
  /-- The metrics whose sensors it reads. -/
  wired : PerMetric Bool
  log : Option DataLog

namespace Monitor

/-- A monitor that is not wired yet. -/
def new : Monitor α := ⟨.zero, .const false, none⟩

/-- The columns of the log. -/
def columns (core : Core α) (machines : List (Machine α)) : List String :=
  stampColumn :: machines.flatMap (fun m => machineColumns m.id) ++
    core.targets.entries.flatMap (fun (m, _) =>
      [columnName "y" m.name, columnName "yn" m.name, columnName "r" m.name]) ++
    counterColumns

/-- **Begins a run**: finds the sensors, clears the counters and reopens the log. -/
def reset (c : Monitor α) (core : Core α) (t : Testbed α) (storage : Storage) :
    Restarted (Monitor α) α :=
  match core.wire t with
  | .error fault => ⟨c, storage, .error (.configuration fault)⟩
  | .ok wired =>
    let reopened := reopen c.log storage core.dataLog (columns core t.machines)
    ⟨{ counters := .zero, wired := wired, log := reopened.log }, reopened.storage, reopened.result⟩

/-- **Samples** the application. -/
def sample (c : Monitor α) (core : Core α) (t : Testbed α) : Sampled (Monitor α) α :=
  let polled := core.sample t c.wired
  ⟨c, polled.core, polled.testbed, polled.warnings⟩

/-- The outcome that the readings call for. -/
def outcome (readings : List (TargetReading α)) : Outcome α :=
  match readings.find? (·.estimate.isNone) with
  | some r => .skipped (.noEstimate r.metric)
  | none => .applied

/-- The row of a control: each estimate as it is, as a fraction of its target, and the
target. -/
def row (stamp : Int) (machines : List (Machine α)) (readings : List (TargetReading α))
    (counters : Counters) : List (Cell α) :=
  .stamp stamp :: machines.flatMap machineCells ++
    readings.flatMap (fun r =>
      let y := r.estimate.getD Scalar.nan
      [.real y, .real (y / r.target), .real r.target]) ++
    counterCells counters

/-- **Controls**: counts, logs and begins the next interval. -/
def control (c : Monitor α) (core : Core α) (t : Testbed α) (storage : Storage)
    (stamp : Int) : Controlled (Monitor α) α :=
  let readings := core.readings
  let outcome : Outcome α := outcome readings
  let counters := c.counters.record outcome
  let logged := writeRow c.log storage (row stamp t.machines readings counters)
  { policy := { c with counters := counters, log := logged.log }
    core := core.endInterval
    testbed := t
    storage := logged.storage
    outcome := outcome
    warnings := logged.warnings }

end Monitor

end CapacityControl.Control
