/-
  CapacityControl.Proofs.Control.Rescaling
  ────────────────────────────────────────
  THE CONTROL LOOP IN OTHER UNITS.  Each metric may be measured in a unit of its own
  (`Units`).  What a manager knows of the application is then rescaled: targets, readings
  that wait, estimators and smoothers (`Core.rescaled`, `Testbed.rescaled`).  Sampling and
  closing an interval commute with that (`Core.sample_rescaled`), and relative errors do not
  notice it (`TargetReading.error?_rescaled`); so neither does what a policy decides from them,
  nor what it needs to begin (`Policy.control_rescaled`, `Policy.obstacle?_rescaled`).
-/
import CapacityControl.Proofs.Control.Twins
import CapacityControl.Proofs.Log.Layout
import CapacityControl.Proofs.Stats.Rescaling

namespace CapacityControl

/-! ## §1. Units. -/

namespace PerMetric

variable {β γ : Type}

/-- Changes the value of each metric in a way of its own. -/
def mapEach (f : Metric → β → γ) (t : PerMetric β) : PerMetric γ :=
  ⟨f .responseTime t.responseTime, f .throughput t.throughput⟩

theorem get_mapEach (f : Metric → β → γ) (t : PerMetric β) (m : Metric) :
    (t.mapEach f).get m = f m (t.get m) := by
  cases m <;> rfl

theorem entries_mapEach (f : Metric → β → γ) (t : PerMetric (Option β)) :
    (t.mapEach fun m => Option.map (f m)).entries = t.entries.map fun (m, v) => (m, f m v) := by
  obtain ⟨response, throughput⟩ := t
  cases response <;> cases throughput <;> rfl

theorem mapEach_set (f : Metric → β → γ) (t : PerMetric β) (m : Metric) (v : β) :
    (t.mapEach f).set m (f m v) = (t.set m v).mapEach f := by
  cases m <;> rfl

/-- Changing one value in between makes no difference, if it is changed accordingly. -/
theorem mapEach_modify {f : Metric → β → γ} (t : PerMetric β) (m : Metric) {g : β → β}
    {h : γ → γ} (hgh : h (f m (t.get m)) = f m (g (t.get m))) :
    (t.mapEach f).modify m h = (t.modify m g).mapEach f := by
  cases m with
  | responseTime => exact congrArg (fun v => (⟨v, _⟩ : PerMetric γ)) hgh
  | throughput => exact congrArg (fun v => (⟨_, v⟩ : PerMetric γ)) hgh

/-- A change of all present values, before or after. -/
theorem map_mapEach {δ ε : Type} {f : Metric → β → γ} {f' : Metric → ε → δ} {g : γ → δ} {h : β → ε}
    (hgf : ∀ m v, g (f m v) = f' m (h v)) (t : PerMetric (Option β)) :
    (t.mapEach fun m => Option.map (f m)).map (Option.map g)
      = (t.map (Option.map h)).mapEach fun m => Option.map (f' m) := by
  refine ext_get fun m => ?_
  rw [get_map, get_mapEach, get_mapEach, get_map, Option.map_map, Option.map_map]
  exact congrArg (Option.map · (t.get m)) (funext fun v => hgf m v)

end PerMetric

/-- The unit of each metric. -/
abbrev Units (α : Type) [Scalar α] := Metric → UnitChange α

/-- Another unit for one metric, and the same units for all others. -/
def Units.only {α : Type} [Scalar α] (metric : Metric) (v : UnitChange α) : Units α := fun m =>
  if m = metric then v else .same α

namespace Control

open Stats Log

variable {α : Type} [Scalar α]

/-! ## §2. Sensors in other units. -/

/-- The reading in another unit. -/
def Reading.rescaled (f : α → α) (r : Reading α) : Reading α := { r with value := f r.value }

/-- The readings of a sensor in another unit. -/
def Sensor.rescaled (f : α → α) (s : Sensor α) : Sensor α :=
  { s with
    pending := s.pending.map (Reading.rescaled f)
    sensed := s.sensed.map (Reading.rescaled f) }

/-- What was polled in another unit. -/
def Poll.rescaled (f : α → α) (p : Poll α) : Poll α :=
  { p with readings := p.readings.map (Reading.rescaled f) }

omit [Scalar α] in
theorem Poll.values_rescaled (f : α → α) (p : Poll α) : (p.rescaled f).values = p.values.map f := by
  simp [values, rescaled, Reading.rescaled, Function.comp_def]

omit [Scalar α] in
theorem Poll.warnings_rescaled (f : α → α) (name : String) (p : Poll α) :
    (p.rescaled f).warnings name = p.warnings name := rfl

section Sensors

variable (v : UnitChange α)

/-- Numbers stay numbers, so the same readings are dropped. -/
theorem Poll.ofReadings_rescaled (readings : List (Reading α)) :
    ofReadings (readings.map (Reading.rescaled v.value)) = (ofReadings readings).rescaled v.value := by
  have hkept : (readings.map (Reading.rescaled v.value)).filter (Scalar.isFinite ·.value)
      = (readings.filter (Scalar.isFinite ·.value)).map (Reading.rescaled v.value) := by
    rw [List.filter_map]
    congr 1
    refine List.filter_congr fun r _ => ?_
    exact v.isFinite_value r.value
  unfold ofReadings rescaled
  dsimp only
  rw [hkept, List.length_map, List.length_map]

/-- **Reading a sensor** in another unit. -/
theorem Sensor.read_rescaled (s : Sensor α) :
    (s.rescaled v.value).read = (s.read.1.rescaled v.value, s.read.2.rescaled v.value) := by
  obtain ⟨pending, sensed, failsNext⟩ := s
  cases failsNext with
  | true => rfl
  | false =>
    show (Poll.ofReadings (sensed.map _ ++ pending.map _), _) = (Poll.rescaled _ _, _)
    rw [← List.map_append, Poll.ofReadings_rescaled]
    rfl

end Sensors

variable (u : Units α)

/-- The testbed with the sensors of its application in other units. -/
def Testbed.rescaled (t : Testbed α) : Testbed α :=
  { t with outputs := t.outputs.mapEach fun m => Sensor.rescaled (u m).value }

theorem Testbed.withOutput_rescaled (t : Testbed α) (m : Metric) {g h : Sensor α → Sensor α}
    (hgh : h ((t.outputs.get m).rescaled (u m).value)
      = (g (t.outputs.get m)).rescaled (u m).value) :
    (t.rescaled u).withOutput m h = (t.withOutput m g).rescaled u :=
  congrArg (fun outputs => { t with outputs := outputs }) (t.outputs.mapEach_modify m hgh)

/-! ## §3. The core in other units. -/

/-- What is known of a target, in other units. -/
def TargetReading.rescaled (r : TargetReading α) : TargetReading α :=
  { r with
    target := (u r.metric).value r.target
    estimate := r.estimate.map (u r.metric).value }

/-- **The core in other units**: targets and statistics are those of rescaled values. -/
def Core.rescaled (c : Core α) : Core α :=
  { c with
    targets := c.targets.mapEach fun m => Option.map (u m).value
    estimators := c.estimators.mapEach fun m => Option.map (Estimator.rescaled (u m).value)
    smoothers := c.smoothers.mapEach fun m => Option.map (Smoother.rescaled (u m).value) }

namespace Core

theorem collect_rescaled (c : Core α) (m : Metric) (values : List α) :
    (c.rescaled u).collect m (values.map (u m).value) = (c.collect m values).rescaled u := by
  have hestimators := c.estimators.mapEach_modify m
    (f := fun m => Option.map (Estimator.rescaled (u m).value))
    (g := (·.map (·.collectMany values)))
    (h := (·.map (·.collectMany (values.map (u m).value)))) (by
      cases c.estimators.get m with
      | none => rfl
      | some e => exact congrArg some (e.collectMany_rescaled (u m).toRescaling values))
  have hsmoothers := c.smoothers.mapEach_modify m
    (f := fun m => Option.map (Smoother.rescaled (u m).value))
    (g := (·.map (·.smoothMany values)))
    (h := (·.map (·.smoothMany (values.map (u m).value)))) (by
      cases c.smoothers.get m with
      | none => rfl
      | some s => exact congrArg some (s.smoothMany_rescaled (u m) values))
  unfold collect rescaled
  dsimp only
  rw [hestimators, hsmoothers]

/-- What was polled, in other units. -/
def Polled.rescaled (s : Polled α) : Polled α :=
  ⟨s.core.rescaled u, s.testbed.rescaled u, s.warnings⟩

theorem sampleMetric_rescaled (s : Polled α) (m : Metric) :
    sampleMetric (s.rescaled u) m = (sampleMetric s m).rescaled u := by
  have hread : ((s.testbed.rescaled u).outputs.get m).read
      = ((s.testbed.outputs.get m).read.1.rescaled (u m).value,
        (s.testbed.outputs.get m).read.2.rescaled (u m).value) := by
    rw [← Sensor.read_rescaled]
    exact congrArg Sensor.read (PerMetric.get_mapEach _ _ _)
  have hsensor : (s.testbed.rescaled u).withOutput m
        (fun _ => (s.testbed.outputs.get m).read.2.rescaled (u m).value)
      = (s.testbed.withOutput m fun _ => (s.testbed.outputs.get m).read.2).rescaled u :=
    s.testbed.withOutput_rescaled u m rfl
  unfold sampleMetric Polled.rescaled
  dsimp only
  rw [hread]
  dsimp only
  rw [Poll.values_rescaled, List.isEmpty_map, Poll.warnings_rescaled, collect_rescaled,
    ← apply_ite (Core.rescaled u), hsensor]

/-- **Sampling** the application in other units. -/
theorem sample_rescaled (c : Core α) (t : Testbed α) (wired : PerMetric Bool) :
    (c.rescaled u).sample (t.rescaled u) wired = (c.sample t wired).rescaled u := by
  have hmetrics : ∀ (ms : List Metric) (s : Polled α),
      ms.foldl sampleMetric (s.rescaled u) = (ms.foldl sampleMetric s).rescaled u := by
    intro ms
    induction ms with
    | nil => exact fun _ => rfl
    | cons m ms ih =>
      intro s
      rw [List.foldl_cons, List.foldl_cons, sampleMetric_rescaled]
      exact ih _
  exact hmetrics _ ⟨c, t, []⟩

theorem endInterval_rescaled (c : Core α) :
    (c.rescaled u).endInterval = c.endInterval.rescaled u := by
  have hestimators := c.estimators.map_mapEach fun m e => e.reset_rescaled (u m)
  unfold endInterval
  show (if c.resetsEachInterval then _ else _) = _
  split
  · unfold rescaled
    dsimp only
    rw [hestimators]
  · rfl

theorem resetStatistics_rescaled (c : Core α) :
    (c.rescaled u).resetStatistics = c.resetStatistics.rescaled u := by
  have hestimators := c.estimators.map_mapEach fun m e => e.reset_rescaled (u m)
  have hsmoothers := c.smoothers.map_mapEach fun m s => s.reset_rescaled (u m)
  unfold resetStatistics rescaled
  dsimp only
  rw [hestimators, hsmoothers]

theorem entries_rescaled (c : Core α) :
    (c.rescaled u).targets.entries = c.targets.entries.map fun (m, v) => (m, (u m).value v) :=
  PerMetric.entries_mapEach (fun m => (u m).value) c.targets

theorem estimate?_rescaled (c : Core α) (m : Metric) :
    (c.rescaled u).estimate? m = (c.estimate? m).map (u m).value := by
  unfold estimate? rescaled
  dsimp only
  rw [PerMetric.get_mapEach]
  cases c.estimators.get m with
  | none => rfl
  | some e =>
    -- An estimator has seen as much in either unit.
    rw [Option.map_some, Option.filter_some, Option.filter_some, Estimator.count_rescaled]
    split
    · exact e.estimate?_rescaled (u m).toRescaling
    · rfl

/-- **The readings of targets** in other units. -/
theorem readings_rescaled (c : Core α) :
    (c.rescaled u).readings = c.readings.map (TargetReading.rescaled u) := by
  unfold readings
  rw [entries_rescaled, List.map_map, List.map_map]
  refine List.map_congr_left fun entry _ => ?_
  exact congrArg (TargetReading.mk _ _) (c.estimate?_rescaled u _)

theorem hasTarget_rescaled (c : Core α) : (c.rescaled u).hasTarget = c.hasTarget := by
  unfold hasTarget
  rw [entries_rescaled, List.isEmpty_map]

theorem isSome_targets_rescaled (c : Core α) :
    (c.rescaled u).targets.map Option.isSome = c.targets.map Option.isSome := by
  refine PerMetric.ext_get fun m => ?_
  rw [PerMetric.get_map, PerMetric.get_map]
  show ((c.targets.mapEach fun m => Option.map (u m).value).get m).isSome = _
  rw [PerMetric.get_mapEach, Option.isSome_map]

theorem wire_rescaled (c : Core α) (t : Testbed α) :
    (c.rescaled u).wire (t.rescaled u) = c.wire t := by
  have hfind : ((c.rescaled u).targets.entries.find? fun (m, _) => !(t.rescaled u).offers.get m)
      = (c.targets.entries.find? fun (m, _) => !t.offers.get m).map
        fun (m, v) => (m, (u m).value v) := by
    rw [entries_rescaled, List.find?_map]
    rfl
  unfold wire
  rw [hfind, isSome_targets_rescaled]
  cases c.targets.entries.find? fun (m, _) => !t.offers.get m with
  | none => rfl
  | some entry => rfl

end Core

/-! ## §4. Relative errors. -/

/-- **A relative error** has no unit. -/
theorem TargetReading.error?_rescaled (r : TargetReading α) : (r.rescaled u).error? = r.error? := by
  obtain ⟨m, target, estimate⟩ := r
  cases estimate with
  | none => rfl
  | some y =>
    have hquotient : ∀ a b c : α,
        ((u m).value a - (u m).value b) / (u m).value c = (a - b) / c := by
      intro a b c
      rw [(u m).value_sub, (u m).span_eq, (u m).value_div]
    cases m with
    | responseTime => exact congrArg some (hquotient target y target)
    | throughput => exact congrArg some (hquotient y target target)

/-- The first reading without an estimate is that of the same metric. -/
theorem find?_isNone_rescaled (readings : List (TargetReading α)) :
    (readings.map (TargetReading.rescaled u)).find? (·.estimate.isNone)
      = (readings.find? (·.estimate.isNone)).map (TargetReading.rescaled u) := by
  rw [List.find?_map]
  congr 2
  funext r
  exact Option.isNone_map

theorem Monitor.outcome_rescaled (readings : List (TargetReading α)) :
    outcome (readings.map (TargetReading.rescaled u)) = outcome readings := by
  unfold outcome
  rw [find?_isNone_rescaled]
  cases readings.find? (·.estimate.isNone) with
  | none => rfl
  | some r => rfl

namespace Controller

theorem drivingError_rescaled (managed : List (Machine α × PerResource (Channel α)))
    (readings : List (TargetReading α)) :
    drivingError managed (readings.map (TargetReading.rescaled u))
      = drivingError managed readings := by
  have hlast : (readings.map (TargetReading.rescaled u)).getLast?.bind TargetReading.error?
      = readings.getLast?.bind TargetReading.error? := by
    rw [List.getLast?_map]
    cases readings.getLast? with
    | none => rfl
    | some r => exact r.error?_rescaled u
  unfold drivingError
  rw [hlast, find?_isNone_rescaled]
  cases readings.find? (·.estimate.isNone) with
  | none => rfl
  | some r => rfl

/-- **What is decided** depends on the relative error alone. -/
theorem decide_rescaled (c : Controller α) (t : Testbed α) (readings : List (TargetReading α)) :
    c.decide (t.rescaled u) (readings.map (TargetReading.rescaled u)) = c.decide t readings := by
  unfold Controller.decide
  dsimp only
  rw [drivingError_rescaled]
  rfl

end Controller

/-! ## §5. Policies. -/

namespace Policy

/-- **A sample** in other units. -/
theorem sample_rescaled (p : Policy α) (core : Core α) (t : Testbed α) :
    p.sample (core.rescaled u) (t.rescaled u)
      = ⟨(p.sample core t).policy, (p.sample core t).core.rescaled u,
          (p.sample core t).testbed.rescaled u, (p.sample core t).warnings⟩ := by
  cases p with
  | fuzzy c =>
    -- The machines are read first, as they are; then the application.
    let read := Controller.sampleMachines t.machines c.channels
    have hpolled := core.sample_rescaled u { t with machines := read.machines } c.wired
    exact congrArg (fun polled : Core.Polled α =>
      (⟨fuzzy { c with channels := read.channels }, polled.core, polled.testbed,
        read.warnings ++ polled.warnings⟩ : Sampled (Policy α) α)) hpolled
  | monitor c =>
    exact congrArg (fun polled : Core.Polled α =>
      (⟨monitor c, polled.core, polled.testbed, polled.warnings⟩ : Sampled (Policy α) α))
      (core.sample_rescaled u t c.wired)

/-- **A control without log** in other units. -/
theorem control_rescaled (p : Policy α) (core : Core α) (t : Testbed α) :
    p.unlogged.control (core.rescaled u) (t.rescaled u) .fresh 0
      = { p.unlogged.control core t .fresh 0 with
          core := (p.unlogged.control core t .fresh 0).core.rescaled u
          testbed := (p.unlogged.control core t .fresh 0).testbed.rescaled u } := by
  cases p with
  | fuzzy c =>
    show Controlled.map fuzzy (Controller.control _ _ _ _ _) = _
    unfold Controller.control
    dsimp only
    rw [core.readings_rescaled, Controller.decide_rescaled, core.endInterval_rescaled]
    rfl
  | monitor c =>
    show Controlled.map monitor (Monitor.control _ _ _ _ _) = _
    unfold Monitor.control
    dsimp only
    rw [core.readings_rescaled, Monitor.outcome_rescaled, core.endInterval_rescaled]
    rfl

/-! What a policy needs to begin a run, and how it begins, is the same in any units. -/

theorem obstacle?_rescaled (p : Policy α) (core : Core α) (t : Testbed α) :
    p.obstacle? (core.rescaled u) (t.rescaled u) = p.obstacle? core t := by
  unfold obstacle?
  rw [core.wire_rescaled, core.hasTarget_rescaled]
  rfl

theorem haltedAt_rescaled (p : Policy α) (core : Core α) (fault : WiringFault) :
    p.haltedAt (core.rescaled u) fault = p.haltedAt core fault := by
  have hrewired : p.rewired (core.rescaled u) = p.rewired core := by
    unfold rewired
    rw [core.isSome_targets_rescaled]
  cases fault with
  | noResourceSensor machine r => exact hrewired
  | _ => rfl

theorem begun_rescaled (p : Policy α) (core : Core α) (t : Testbed α) (log : Option DataLog) :
    p.begun (core.rescaled u) (t.rescaled u) log = p.begun core t log := by
  unfold begun
  rw [core.isSome_targets_rescaled]
  rfl

theorem columns_rescaled (p : Policy α) (core : Core α) (machines : List (Machine α)) :
    p.columns (core.rescaled u) machines = p.columns core machines := by
  cases p with
  | fuzzy c =>
    show Controller.columns _ _ = Controller.columns _ _
    unfold Controller.columns
    rw [core.entries_rescaled, List.flatMap_map]
  | monitor c =>
    show Monitor.columns _ _ = Monitor.columns _ _
    unfold Monitor.columns
    rw [core.entries_rescaled, List.flatMap_map]

/-- Rows have as many fields. -/
theorem length_row_rescaled (p : Policy α) (core : Core α) (t : Testbed α) (stamp : Int) :
    (p.row (core.rescaled u) (t.rescaled u) stamp).length = (p.row core t stamp).length := by
  cases p with
  | fuzzy c =>
    show (Controller.row _ _ _ _ _).length = (Controller.row _ _ _ _ _).length
    rw [core.readings_rescaled, Controller.decide_rescaled, Controller.length_row,
      Controller.length_row, List.length_map]
    rfl
  | monitor c =>
    show (Monitor.row _ _ _ _).length = (Monitor.row _ _ _ _).length
    rw [core.readings_rescaled, Monitor.length_row, Monitor.length_row, List.length_map]
    rfl

end Policy

/-! ## §6. Actions in other units. -/

/-- The target in another unit. -/
def Target.rescaled (f : α → α) (t : Target α) : Target α := { t with value := f t.value }

/-- The configuration with its targets in other units. -/
def Config.rescaled (config : Config α) : Config α :=
  { config with
    targets := config.targets.mapEach fun m => Option.map (Target.rescaled (u m).value) }

/-- The reading in the unit of its metric.  Uses of machines are no metrics. -/
def Item.rescaled : Item α → Item α
  | machine index r value => machine index r value
  | output m value => output m ((u m).value value)

/-- **The same action in other units**: whatever it says of a metric is rescaled. -/
def Action.rescaled : Action α → Action α
  | setTarget m value => setTarget m ((u m).value value)
  | setSmoother m smoother => setSmoother m (smoother.rescaled (u m).value)
  | apply config => apply (config.rescaled u)
  | feed items => feed (items.map (Item.rescaled u))
  | runUntil time feeds => runUntil time (feeds.map (·.map (Item.rescaled u)))
  | a => a

/-- A target is accepted in any unit, or in none. -/
theorem checkTarget_rescaled (v : UnitChange α) (x : α) :
    checkTarget (v.value x) = (checkTarget x).map v.value := by
  unfold checkTarget ensureFinite
  rw [v.isFinite_value]
  cases hfinite : Scalar.isFinite x with
  | true =>
    show (if v.value x == 0.0 then _ else _) = Except.map _ (if x == 0.0 then _ else _)
    rw [v.value_beq_zero]
    split
    · rfl
    · rfl
  | false =>
    -- The refusal quotes the value, which has no unit.
    rw [v.value_eq_self hfinite]
    rfl

theorem Target.check_rescaled (v : UnitChange α) (t : Target α) :
    (t.rescaled v.value).check = t.check := by
  unfold Target.check
  show (checkTarget (v.value t.value) >>= fun _ => _) = _
  rw [checkTarget_rescaled]
  cases checkTarget t.value with
  | error e => rfl
  | ok x => rfl

/-- **A configuration** is accepted in any units, or in none. -/
theorem Config.check_rescaled (config : Config α) : (config.rescaled u).check = config.check := by
  have htargets : (config.rescaled u).targets.entries = config.targets.entries.map fun entry =>
      (entry.1, entry.2.rescaled (u entry.1).value) :=
    PerMetric.entries_mapEach (fun m => Target.rescaled (u m).value) config.targets
  unfold Config.check
  rw [htargets, List.forM_eq_forM, List.forM_map]
  simp only [Target.check_rescaled]
  rfl

namespace Core

theorem withTarget_rescaled (c : Core α) (m : Metric) (x : α) :
    (c.rescaled u).withTarget m ((u m).value x) = (c.withTarget m x).map (Core.rescaled u) := by
  have hestimators := c.estimators.mapEach_modify m
    (f := fun m => Option.map (Estimator.rescaled (u m).value))
    (g := fun e => some (e.getD (.mean .empty))) (h := fun e => some (e.getD (.mean .empty))) (by
      cases c.estimators.get m with
      | none => exact congrArg some (Estimator.rescaled_reset (u m) (.mean .empty)).symm
      | some e => rfl)
  unfold withTarget
  rw [checkTarget_rescaled]
  cases checkTarget x with
  | error e => rfl
  | ok y =>
    show Except.ok _ = Except.ok _
    unfold rescaled
    dsimp only
    rw [hestimators, ← PerMetric.mapEach_set]
    rfl

theorem withEstimator_rescaled (c : Core α) (m : Metric) (e : Estimator α) :
    (c.rescaled u).withEstimator m (e.rescaled (u m).value) = (c.withEstimator m e).rescaled u :=
  congrArg (fun estimators => { c.rescaled u with estimators := estimators })
    (PerMetric.mapEach_set (fun m => Option.map (Estimator.rescaled (u m).value)) c.estimators m
      (some e))

theorem withSmoother_rescaled (c : Core α) (m : Metric) (s : Smoother α) :
    (c.rescaled u).withSmoother m (s.rescaled (u m).value) = (c.withSmoother m s).rescaled u :=
  congrArg (fun smoothers => { c.rescaled u with smoothers := smoothers })
    (PerMetric.mapEach_set (fun m => Option.map (Smoother.rescaled (u m).value)) c.smoothers m
      (some s))

theorem steered_rescaled (c : Core α) (config : Config α) :
    (c.rescaled u).steered (config.rescaled u) = (c.steered config).rescaled u := by
  have htargets : (config.rescaled u).targets.map (·.map Target.value)
      = (config.targets.map (·.map Target.value)).mapEach fun m => Option.map (u m).value :=
    PerMetric.map_mapEach (f := fun m => Target.rescaled (u m).value) (fun _ _ => rfl)
      config.targets
  -- An estimator that was built for a target has no unit yet.
  have hrenewed : ∀ (m : Metric) (target : Option (Target α)) (e : Option (Estimator α)),
      renewed (target.map (Target.rescaled (u m).value)) (e.map (Estimator.rescaled (u m).value))
        = (renewed target e).map (Estimator.rescaled (u m).value) := by
    intro m target e
    cases target with
    | none => rfl
    | some t =>
      show t.estimator.build.toOption = t.estimator.build.toOption.map _
      cases hbuild : t.estimator.build with
      | error r => rfl
      | ok built => exact congrArg some (Estimator.rescaled_build (u m) hbuild).symm
  have hestimators : (⟨renewed (config.rescaled u).targets.responseTime
        (c.rescaled u).estimators.responseTime, renewed (config.rescaled u).targets.throughput
        (c.rescaled u).estimators.throughput⟩ : PerMetric _)
      = (c.steered config).estimators.mapEach fun m =>
        Option.map (Estimator.rescaled (u m).value) :=
    PerMetric.ext_get fun m => by
      cases m with
      | responseTime => exact hrenewed .responseTime _ _
      | throughput => exact hrenewed .throughput _ _
  unfold steered
  rw [htargets, hestimators]
  rfl

end Core

end Control

end CapacityControl
