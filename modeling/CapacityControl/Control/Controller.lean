/-
  CapacityControl.Control.Controller
  ──────────────────────────────────
  THE FUZZY CONTROLLER.  At every control it decides, from what was sampled since the
  last one, how the shares of every machine are to change.  Shares are touched only when
  every decision is made, so a control changes all of them as decided or none.
-/
import CapacityControl.Control.Columns
import CapacityControl.Control.Inference
import CapacityControl.Control.Step

namespace CapacityControl.Control

open Stats Fuzzy Log

variable {α : Type} [Scalar α]

/-! ## §1. Channels. -/

/-- The utilisation of one resource: its smoothed level, and how many readings came since the
last control. -/
structure Channel (α : Type) where
  smoother : SingleSmoother α
  observed : Nat

namespace Channel

/-- Takes in readings. -/
def take (c : Channel α) (values : List α) : Channel α :=
  ⟨values.foldl SingleSmoother.smooth c.smoother, c.observed + values.length⟩

/-- Begins an interval. -/
def rest (c : Channel α) : Channel α := { c with observed := 0 }

/-- What the share leaves over; undefined before the first reading. -/
def residual (c : Channel α) (share : α) : α :=
  share - (c.smoother.forecast? 0).getD Scalar.nan

end Channel

/-! ## §2. The controller. -/

/-- The fuzzy controller.  It has channels for the machines it was wired to, in their order. -/
structure Controller (α : Type) where
  smoothingFactor : α
  engine : Engine α
  counters : Counters
  /-- The metrics whose sensors it reads. -/
  wired : PerMetric Bool
  channels : List (PerResource (Channel α))
  log : Option DataLog

namespace Controller

/-- A controller that is not wired yet. -/
def new (factor : α) : Except Requirement (Controller α) :=
  (ensureFactor .smoothingFactor factor).map fun f => ⟨f, surface, .zero, .const false, [], none⟩

/-- Sets the smoothing factor, which counts from the next reset on. -/
def withFactor (c : Controller α) (factor : α) : Except Requirement (Controller α) :=
  (ensureFactor .smoothingFactor factor).map fun f => { c with smoothingFactor := f }

/-- The machines it was wired to, with their channels. -/
def managed (c : Controller α) (t : Testbed α) : List (Machine α × PerResource (Channel α)) :=
  t.machines.zip c.channels

/-! ## §3. Reset. -/

/-- The first sensor of a machine that cannot be found. -/
def missingSensor? (machines : List (Machine α)) : Option (WiringFault) :=
  machines.findSome? fun m =>
    (Resource.all.find? fun r => !m.offers.get r).map (.noResourceSensor m.id)

/-- The columns of the log. -/
def columns (core : Core α) (machines : List (Machine α)) : List String :=
  stampColumn :: machines.flatMap (fun m => machineColumns m.id) ++
    core.targets.entries.flatMap (fun (m, _) =>
      [columnName "r" m.name, columnName "y" m.name, columnName "E" m.name]) ++
    machines.map (fun m => columnName "Cres" m.id) ++ counterColumns

/-- **Begins a run**: finds the sensors, drops the levels, clears the counters and reopens the
log.  What was done before a failure stays done. -/
def reset (c : Controller α) (core : Core α) (t : Testbed α) (storage : Storage) :
    Restarted (Controller α) α :=
  if !core.hasTarget then ⟨c, storage, .error (.configuration .noTarget)⟩
  else match core.wire t with
  | .error fault => ⟨c, storage, .error (.configuration fault)⟩
  | .ok wired =>
    let c := { c with wired := wired }
    match missingSensor? t.machines with
    | some fault => ⟨c, storage, .error (.configuration fault)⟩
    | none =>
      let channel : Channel α := ⟨⟨c.smoothingFactor, none⟩, 0⟩
      let reopened := reopen c.log storage core.dataLog (columns core t.machines)
      ⟨{ c with
          channels := t.machines.map fun _ => .const channel
          counters := .zero
          engine := c.engine.restart
          log := reopened.log },
        reopened.storage, reopened.result⟩

/-! ## §4. Sampling. -/

/-- What reading the sensors of machines leaves behind. -/
structure Read (α : Type) where
  machines : List (Machine α)
  channels : List (PerResource (Channel α))
  warnings : List (Warning α)

/-- Reads the sensors of one machine, the processor's first. -/
def sampleMachine (m : Machine α) (cs : PerResource (Channel α)) :
    Machine α × PerResource (Channel α) × List (Warning α) :=
  let (cpu, cpuSensor) := m.sensors.cpu.read
  let (memory, memorySensor) := m.sensors.memory.read
  ({ m with sensors := ⟨cpuSensor, memorySensor⟩ },
    ⟨cs.cpu.take cpu.values, cs.memory.take memory.values⟩,
    cpu.warnings Resource.cpu.name ++ memory.warnings Resource.memory.name)

/-- Reads the sensors of every machine that has channels. -/
def sampleMachines : List (Machine α) → List (PerResource (Channel α)) → Read α
  | m :: ms, cs :: css =>
    let (m, cs, warnings) := sampleMachine m cs
    let rest := sampleMachines ms css
    ⟨m :: rest.machines, cs :: rest.channels, warnings ++ rest.warnings⟩
  | ms, css => ⟨ms, css, []⟩

/-- **Samples**: the machines in their order, then the application. -/
def sample (c : Controller α) (core : Core α) (t : Testbed α) : Sampled (Controller α) α :=
  let read := sampleMachines t.machines c.channels
  let polled := core.sample { t with machines := read.machines } c.wired
  ⟨{ c with channels := read.channels }, polled.core, polled.testbed,
    read.warnings ++ polled.warnings⟩

/-! ## §5. Control. -/

/-- The first resource that delivered nothing since the last control. -/
def missingReading? (managed : List (Machine α × PerResource (Channel α))) : Option SkipReason :=
  managed.findSome? fun (m, cs) =>
    (Resource.all.find? fun r => (cs.get r).observed == 0).map fun r => .noReading r m.id

/-- The residuals of every machine. -/
def residuals (managed : List (Machine α × PerResource (Channel α))) : List (Residuals α) :=
  managed.map fun (m, cs) =>
    (m.id, ⟨cs.cpu.residual (m.share .cpu), cs.memory.residual (m.share .memory)⟩)

/-- Why there is nothing to decide from, or the error to decide from: that of the last metric
with a target. -/
def drivingError (managed : List (Machine α × PerResource (Channel α)))
    (readings : List (TargetReading α)) : Except SkipReason α :=
  match missingReading? managed with
  | some reason => .error reason
  | none =>
    match readings.find? (·.estimate.isNone) with
    | some r => .error (.noEstimate r.metric)
    | none =>
      match readings.getLast?.bind TargetReading.error? with
      | some e => .ok e
      | none => .error .noTarget

/-- Sends the change of one share; a machine that refuses is reported. -/
def actuateResource (m : Machine α) (r : Resource) (delta : α) : Machine α × List (Warning α) :=
  match nextShare (m.share r) delta with
  | none => (m, [])
  | some share =>
    match m.setShare r share with
    | .ok m => (m, [])
    | .error e => (m, [.updateFailed m.id r e])

/-- Sends the changes of one machine, the processor's first. -/
def actuateMachine (m : Machine α) (deltas : PerResource α) : Machine α × List (Warning α) :=
  let (m, first) := actuateResource m .cpu deltas.cpu
  let (m, second) := actuateResource m .memory deltas.memory
  (m, first ++ second)

/-- Sends the changes of every machine. -/
def actuate : List (Machine α) → List (PerResource α) → List (Machine α) × List (Warning α)
  | m :: ms, d :: ds =>
    let (m, first) := actuateMachine m d
    let (ms, rest) := actuate ms ds
    (m :: ms, first ++ rest)
  | ms, _ => (ms, [])

/-- What a control decided and did. -/
structure Decision (α : Type) where
  outcome : Outcome α
  engine : Engine α
  machines : List (Machine α)
  warnings : List (Warning α)

/-- **Decides and acts.** -/
def decide (c : Controller α) (t : Testbed α) (readings : List (TargetReading α)) : Decision α :=
  let managed := c.managed t
  match drivingError managed readings with
  | .error reason => ⟨.skipped reason, c.engine, t.machines, []⟩
  | .ok error =>
    match inferAll c.engine error (residuals managed) with
    | ⟨engine, .error e⟩ => ⟨.failed e, engine, t.machines, [.notApplied e]⟩
    | ⟨engine, .ok deltas⟩ =>
      let (machines, warnings) := actuate t.machines deltas
      ⟨.applied, engine, machines, warnings⟩

/-- The row of a control: the shares after it, the readings and residuals it was decided from,
and the counters. -/
def row (stamp : Int) (machines : List (Machine α)) (readings : List (TargetReading α))
    (residuals : List (Residuals α)) (counters : Counters) : List (Cell α) :=
  .stamp stamp :: machines.flatMap machineCells ++
    readings.flatMap (fun r =>
      [.real r.target, .real (r.estimate.getD Scalar.nan), .real (r.error?.getD Scalar.nan)]) ++
    residuals.map (fun (_, r) => .real r.cpu) ++ counterCells counters

/-- **Controls**: decides, acts, counts, logs and begins the next interval. -/
def control (c : Controller α) (core : Core α) (t : Testbed α) (storage : Storage)
    (stamp : Int) : Controlled (Controller α) α :=
  let before := residuals (c.managed t)
  let readings := core.readings
  let decision := c.decide t readings
  let counters := c.counters.record decision.outcome
  let logged := writeRow c.log storage (row stamp decision.machines readings before counters)
  { policy := { c with
      engine := decision.engine
      counters := counters
      channels := c.channels.map (·.map Channel.rest)
      log := logged.log }
    core := core.endInterval
    testbed := { t with machines := decision.machines }
    storage := logged.storage
    outcome := decision.outcome
    warnings := decision.warnings ++ logged.warnings }

end Controller

end CapacityControl.Control
