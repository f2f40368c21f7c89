/-
  CapacityControl.Proofs.Control.Wiring
  ─────────────────────────────────────
  WHICH SENSORS ARE READ.  A reset finds the sensors of the metrics with a target and, for the
  fuzzy controller, those of all machines (`Station.wired_reset`).  Until the next reset no
  operation changes them (`Station.stays_perform`); every sample reads each of them once
  (`Policy.sensor_sample`), and no control reads any.
-/
import CapacityControl.Proofs.Control.Logging
import CapacityControl.Proofs.Control.Run

namespace CapacityControl.Control

open Stats

variable {α : Type} [Scalar α]

/-! ## §1. Sources. -/

/-- Where readings come from: the sensor of a resource of a machine, or of a metric of the
application. -/
inductive Source where
  | machine (index : Nat) (resource : Resource)
  | output (metric : Metric)
  deriving DecidableEq, Repr

namespace Testbed

/-- Whether there is such a sensor. -/
def Has (t : Testbed α) : Source → Prop
  | .machine index _ => index < t.machines.length
  | .output _ => True

/-- The sensor of a source. -/
def sensor (t : Testbed α) : Source → Sensor α
  | .machine index r => ((t.machines.map (·.sensors))[index]?.map (·.get r)).getD .empty
  | .output m => t.outputs.get m

omit [Scalar α] in
theorem sensor_congr {t t' : Testbed α}
    (hmachines : t'.machines.map (·.sensors) = t.machines.map (·.sensors))
    (houtputs : t'.outputs = t.outputs) (source : Source) : t'.sensor source = t.sensor source := by
  cases source with
  | machine index r =>
    unfold sensor
    rw [hmachines]
  | output m =>
    unfold sensor
    rw [houtputs]

end Testbed

/-! ## §2. What is read. -/

namespace Policy

/-- The metrics whose sensors a policy reads. -/
def wired : Policy α → PerMetric Bool
  | fuzzy c => c.wired
  | monitor c => c.wired

theorem wired_begun (p : Policy α) (core : Core α) (t : Testbed α) (log : Option Log.DataLog) :
    (p.begun core t log).wired = core.targets.map Option.isSome := by
  cases p with
  | fuzzy c => rfl
  | monitor c => rfl

/-- The sensors that a policy reads. -/
def Reads (p : Policy α) : Source → Prop
  | .machine index _ => index < p.channels
  | .output m => p.wired.get m = true

end Policy

namespace Core

theorem sensor_sampleMetric (s : Polled α) (k m : Metric) :
    (sampleMetric s k).testbed.outputs.get m
      = if m = k then (s.testbed.outputs.get m).read.2 else s.testbed.outputs.get m := by
  show (s.testbed.outputs.modify k _).get m = _
  rw [PerMetric.get_modify]
  split
  · next h =>
    rw [h]
    rfl
  · rfl

/-- Reading several metrics reads the sensor of each of them once, and no other. -/
theorem sensors_sampleMetrics {ms : List Metric} (hms : ms.Nodup) (s : Polled α) (m : Metric) :
    (ms.foldl sampleMetric s).testbed.outputs.get m
      = if m ∈ ms then (s.testbed.outputs.get m).read.2 else s.testbed.outputs.get m := by
  induction ms generalizing s with
  | nil => rfl
  | cons k ms ih =>
    -- No metric comes twice, so a sensor that is read first is not read again.
    obtain ⟨hk, hms⟩ := List.nodup_cons.mp hms
    rw [List.foldl_cons, ih hms, sensor_sampleMetric]
    by_cases hm : m = k
    · subst hm
      simp [hk]
    · simp [hm]

theorem nodup_all (p : Metric → Bool) : (Metric.all.filter p).Nodup :=
  List.Pairwise.filter p (by decide)

theorem mem_all (m : Metric) : m ∈ Metric.all := by
  cases m <;> decide

/-- **A sample** reads the sensors of the metrics that were found. -/
theorem sensor_sample (c : Core α) (t : Testbed α) {wired : PerMetric Bool} {m : Metric}
    (h : wired.get m = true) :
    (c.sample t wired).testbed.sensor (.output m) = (t.sensor (.output m)).read.2 := by
  show (List.foldl sampleMetric _ _).testbed.outputs.get m = _
  rw [sensors_sampleMetrics (nodup_all _), if_pos (List.mem_filter.mpr ⟨mem_all m, h⟩)]
  rfl

end Core

namespace Controller

/-- The sensors of the machines that have channels are read. -/
theorem sensors_sampleMachines (ms : List (Machine α)) {css : List (PerResource (Channel α))}
    {i : Nat} (h : i < css.length) (r : Resource) :
    ((sampleMachines ms css).machines[i]?.map fun m => m.sensors.get r)
      = ms[i]?.map fun m => (m.sensors.get r).read.2 := by
  induction ms generalizing css i with
  | nil => rfl
  | cons m ms ih =>
    cases css with
    | nil => cases h
    | cons cs css =>
      cases i with
      | zero => cases r <;> rfl
      | succ i => exact ih (Nat.lt_of_succ_lt_succ h)

/-- Actuation changes shares only. -/
theorem sensors_actuateResource (m : Machine α) (r : Resource) (delta : α) :
    (actuateResource m r delta).1.sensors = m.sensors := by
  unfold actuateResource
  cases nextShare (m.share r) delta with
  | none => rfl
  | some share =>
    dsimp only
    cases hset : m.setShare r share with
    | error e => rfl
    | ok m' =>
      obtain ⟨_, rfl⟩ := Machine.setShare_ok hset
      rfl

theorem sensors_actuate (ms : List (Machine α)) (ds : List (PerResource α)) :
    (actuate ms ds).1.map (·.sensors) = ms.map (·.sensors) := by
  induction ms generalizing ds with
  | nil => rfl
  | cons m ms ih =>
    cases ds with
    | nil => rfl
    | cons d ds =>
      have hmachine : (actuateMachine m d).1.sensors = m.sensors :=
        (sensors_actuateResource _ .memory _).trans (sensors_actuateResource m .cpu _)
      exact congrArg₂ List.cons hmachine (ih ds)

theorem sensors_decide (c : Controller α) (t : Testbed α) (readings : List (TargetReading α)) :
    (c.decide t readings).machines.map (·.sensors) = t.machines.map (·.sensors) := by
  rcases decide_cases c t readings with ⟨_, _, h⟩ | ⟨_, _, ⟨_, _, h⟩ | ⟨deltas, _, h⟩⟩
  · rw [h]
  · rw [h]
  · rw [h]
    exact sensors_actuate t.machines deltas

end Controller

namespace Policy

/-- **A sample of a policy** reads its sensors. -/
theorem sensor_sample (p : Policy α) (core : Core α) (t : Testbed α) {source : Source}
    (h : p.Reads source) :
    (p.sample core t).testbed.sensor source = (t.sensor source).read.2 := by
  cases p with
  | monitor c =>
    cases source with
    | machine index r => cases h
    | output m => exact core.sensor_sample t h
  | fuzzy c =>
    cases source with
    | output m => exact core.sensor_sample _ h
    | machine index r =>
      -- The machines are read first; reading the application afterwards leaves them alone.
      have hread := Controller.sensors_sampleMachines t.machines h r
      show (((core.sample _ c.wired).testbed.machines.map (·.sensors))[index]?.map
        (·.get r)).getD .empty = _
      rw [Core.machines_sample]
      simp only [Testbed.sensor, List.getElem?_map, Option.map_map, Function.comp_def]
      rw [hread]
      cases t.machines[index]? with
      | none => rfl
      | some m => rfl

/-- **A control of a policy** reads no sensor. -/
theorem sensor_control (p : Policy α) (core : Core α) (t : Testbed α) (storage : Storage)
    (stamp : Int) (source : Source) :
    (p.control core t storage stamp).testbed.sensor source = t.sensor source := by
  cases p with
  | monitor c => rfl
  | fuzzy c =>
    have hmachines : (c.control core t storage stamp).testbed.machines.map (·.sensors)
        = t.machines.map (·.sensors) := c.sensors_decide t core.readings
    exact Testbed.sensor_congr hmachines rfl source

end Policy

/-! ## §3. Wiring. -/

namespace Station

/-- **The sensors that a manager reads in a run**: those of the metrics with a target and, with
the fuzzy controller, those of every machine. -/
def Reads (s : Station α) : Source → Prop
  | .machine index _ => s.manager.policy.readsMachines = true ∧ index < s.testbed.machines.length
  | .output m => (s.manager.core.targets.get m).isSome = true

/-- The policy has found the sensors that are to be read. -/
structure Wired (s : Station α) : Prop where
  metrics : s.manager.policy.wired = s.manager.core.targets.map Option.isSome
  machines : s.manager.policy.channels
    = if s.manager.policy.readsMachines then s.testbed.machines.length else 0

/-- **In a run the wiring stays**, and so do the settings that a run reads; an estimator is the
same but for what it has seen. -/
structure Stays (s s' : Station α) : Prop where
  core : ∀ fresh, Core.MovesOn (fun e => e.reset = fresh) s.manager.core s'.manager.core
  resets : s'.manager.core.resetsEachInterval = s.manager.core.resetsEachInterval
  metrics : s'.manager.policy.wired = s.manager.policy.wired
  readsMachines : s'.manager.policy.readsMachines = s.manager.policy.readsMachines
  channels : s'.manager.policy.channels = s.manager.policy.channels
  machines : s'.testbed.machines.length = s.testbed.machines.length

section Stays

variable {s s' s'' : Station α} {source : Source}

theorem Stays.refl (s : Station α) : s.Stays s := ⟨fun _ => .refl _ _, rfl, rfl, rfl, rfl, rfl⟩

theorem Stays.trans (h : s.Stays s') (h' : s'.Stays s'') : s.Stays s'' :=
  ⟨fun fresh => (h.core fresh).trans (h'.core fresh), h'.resets.trans h.resets,
    h'.metrics.trans h.metrics, h'.readsMachines.trans h.readsMachines,
    h'.channels.trans h.channels, h'.machines.trans h.machines⟩

theorem Stays.targets (h : s.Stays s') : s'.manager.core.targets = s.manager.core.targets :=
  (h.core (.mean .empty)).targets

theorem Stays.withTestbed {t : Testbed α} (ht : t.machines.length = s.testbed.machines.length) :
    s.Stays { s with testbed := t } :=
  ⟨fun _ => .refl _ _, rfl, rfl, rfl, rfl, ht⟩

theorem Stays.reads (h : s.Stays s') : s'.Reads source ↔ s.Reads source := by
  cases source with
  | machine index r =>
    show _ ∧ _ ↔ _ ∧ _
    rw [h.readsMachines, h.machines]
  | output m =>
    show _ = _ ↔ _ = _
    rw [h.targets]

theorem Stays.wired (h : s.Stays s') (hs : s.Wired) : s'.Wired := by
  refine ⟨?_, ?_⟩
  · rw [h.metrics, h.targets, hs.metrics]
  · rw [h.channels, h.readsMachines, h.machines, hs.machines]

omit [Scalar α] in
/-- The policy reads what is to be read. -/
theorem Wired.reads (hs : s.Wired) (h : s.Reads source) : s.manager.policy.Reads source := by
  cases source with
  | machine index r =>
    show index < s.manager.policy.channels
    rw [hs.machines, h.1]
    exact h.2
  | output m =>
    show s.manager.policy.wired.get m = true
    rw [hs.metrics, PerMetric.get_map]
    exact h

omit [Scalar α] in
theorem Reads.has (h : s.Reads source) : s.testbed.Has source := by
  cases source with
  | machine index r => exact h.2
  | output m => trivial

end Stays

theorem core_sample (s : Station α) :
    ∃ t wired, s.sample.station.manager.core = (s.manager.core.sample t wired).core := by
  unfold Station.sample Manager.sample
  cases s.manager.policy with
  | fuzzy c => exact ⟨_, c.wired, rfl⟩
  | monitor c => exact ⟨_, c.wired, rfl⟩

theorem stays_sample (s : Station α) : s.Stays s.sample.station := by
  have hcollect : ∀ fresh : Estimator α, ∀ values : List α, ∀ e : Estimator α,
      e.reset = fresh → (e.collectMany values).reset = fresh := by
    intro fresh values e he
    rw [Estimator.reset_collectMany, he]
  obtain ⟨t, wired, hcore⟩ := s.core_sample
  refine ⟨fun fresh => ?_, ?_, ?_, ?_, ?_, ?_⟩
  · rw [hcore]
    exact Core.movesOn_sample (fun values _ => hcollect fresh values) _ t wired
  · obtain ⟨_, _, hsettings⟩ := s.manager.core.core_sample t wired
    rw [hcore, hsettings]
  · show (s.manager.policy.sample _ _).policy.wired = _
    cases s.manager.policy <;> rfl
  · show (s.manager.policy.sample _ _).policy.readsMachines = _
    cases s.manager.policy <;> rfl
  · exact (Policy.sameLog_sample _ _ _).channels
  · exact Policy.length_machines_sample _ _ _

theorem core_control (s : Station α) (stamp : Int) :
    (s.control stamp).station.manager.core = s.manager.core.endInterval := by
  show (s.manager.policy.control _ _ _ _).core = _
  cases s.manager.policy with
  | fuzzy c => rfl
  | monitor c => rfl

theorem stays_control (s : Station α) (stamp : Int) : s.Stays (s.control stamp).station := by
  obtain ⟨_, _, _, hchannels, hmachines⟩ :=
    s.manager.policy.control_logged s.manager.core s.testbed s.storage stamp
  refine ⟨fun fresh => ?_, ?_, ?_, ?_, hchannels, hmachines⟩
  · rw [core_control]
    exact Core.movesOn_endInterval (fun e he => by rw [Estimator.reset_reset, he]) _
  · rw [core_control]
    unfold Core.endInterval
    split <;> rfl
  · show (s.manager.policy.control _ _ _ _).policy.wired = _
    cases s.manager.policy <;> rfl
  · show (s.manager.policy.control _ _ _ _).policy.readsMachines = _
    cases s.manager.policy <;> rfl

/-- **No operation** changes the wiring. -/
theorem stays_perform (s : Station α) (stamp : Int) {a : Action α} (ha : a.isOperation = true) :
    s.Stays (s.perform stamp a).station := by
  cases a with
  | feed items => exact .withTestbed (length_feed s.testbed items)
  | failMachine index r => exact .withTestbed (List.length_modify _ _ _)
  | failOutput m => exact .withTestbed rfl
  | refuse index on => exact .withTestbed (List.length_modify _ _ _)
  | sample => exact s.stays_sample
  | control => exact s.stays_control stamp
  | _ => cases ha

theorem stays_after (s : Station α) {run : List (Int × Action α)}
    (hrun : ∀ x ∈ run, x.2.isOperation = true) : s.Stays (s.after run) := by
  induction run using List.reverseRecOn with
  | nil => exact .refl s
  | append_singleton run x ih =>
    rw [List.forall_mem_append, List.forall_mem_singleton] at hrun
    rw [after_concat]
    exact (ih hrun.1).trans ((s.after run).stays_perform x.1 hrun.2)

/-- **A reset that succeeds** wires the policy. -/
theorem wired_reset {s : Station α} (h : s.reset.result = .ok .done) : s.reset.station.Wired := by
  obtain ⟨_, hstation⟩ := reset_ok h
  rw [hstation]
  exact ⟨Policy.wired_begun _ _ _ _, Policy.channels_begun _ _ _ _⟩

end Station

end CapacityControl.Control
