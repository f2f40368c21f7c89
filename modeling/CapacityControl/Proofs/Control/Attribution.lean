/-
  CapacityControl.Proofs.Control.Attribution
  ──────────────────────────────────────────
  WHAT STATISTICS ARE MADE OF.  An estimator, or the level of a channel, takes in what its own
  sensor yields and nothing else, so after a run it is a fold over the numbers drained from
  that sensor (`Station.after_folds`).  Levels go on through the whole run.  Estimators begin
  anew after each control if they are to, so what a control reads is estimated from the
  readings drained in its own interval.  With the law of where readings go, this attributes
  every reading to one interval (`Station.readings_attributed`).
-/
import CapacityControl.Proofs.Control.Draining

namespace CapacityControl.Control

open Stats

variable {α : Type} [Scalar α]

/-! ## §1. What a sample adds. -/

namespace Core

theorem estimator_sampleMetric (s : Polled α) (k m : Metric) :
    (sampleMetric s k).core.estimators.get m
      = if m = k then (s.core.estimators.get m).map
          (·.collectMany (s.testbed.outputs.get m).read.1.values)
        else s.core.estimators.get m := by
  rw [sampleMetric_core]
  by_cases hm : m = k
  · subst hm
    rw [if_pos rfl]
    split
    · next hempty =>
      rw [List.isEmpty_iff.mp hempty]
      exact Option.map_id'.symm
    · show (s.core.estimators.modify m _).get m = _
      rw [PerMetric.get_modify, if_pos rfl]
  · rw [if_neg hm]
    split
    · rfl
    · show (s.core.estimators.modify k _).get m = _
      rw [PerMetric.get_modify, if_neg hm]

/-- An estimator takes in what its sensor yields, whatever other metrics are read. -/
theorem estimator_sampleMetrics {ms : List Metric} (hms : ms.Nodup) (s : Polled α) (m : Metric) :
    (ms.foldl sampleMetric s).core.estimators.get m
      = if m ∈ ms then (s.core.estimators.get m).map
          (·.collectMany (s.testbed.outputs.get m).read.1.values)
        else s.core.estimators.get m := by
  induction ms generalizing s with
  | nil => rfl
  | cons k ms ih =>
    obtain ⟨hk, hms⟩ := List.nodup_cons.mp hms
    rw [List.foldl_cons, ih hms, estimator_sampleMetric, sensor_sampleMetric]
    by_cases hm : m = k
    · subst hm
      simp [hk]
    · simp [hm]

/-- **A sample** adds to an estimator the numbers that its sensor yields. -/
theorem estimator_sample (c : Core α) (t : Testbed α) {wired : PerMetric Bool} {m : Metric}
    (h : wired.get m = true) :
    (c.sample t wired).core.estimators.get m
      = (c.estimators.get m).map (·.collectMany (numbers (t.sensor (.output m)).polled)) := by
  show (List.foldl sampleMetric _ _).core.estimators.get m = _
  rw [estimator_sampleMetrics (nodup_all _), if_pos (List.mem_filter.mpr ⟨mem_all m, h⟩),
    Sensor.values_read]
  rfl

end Core

namespace Policy

/-- The smoother of a resource of a machine, for a policy that has one. -/
def smoother? : Policy α → Nat → Resource → Option (SingleSmoother α)
  | fuzzy c, index, r => c.channels[index]?.map fun cs => (cs.get r).smoother
  | monitor _, _, _ => none

theorem estimator_sample (p : Policy α) (core : Core α) (t : Testbed α) {m : Metric}
    (h : p.wired.get m = true) :
    (p.sample core t).core.estimators.get m
      = (core.estimators.get m).map (·.collectMany (numbers (t.sensor (.output m)).polled)) := by
  cases p with
  | fuzzy c => exact core.estimator_sample _ h
  | monitor c => exact core.estimator_sample t h

/-- **A sample** adds to a level the numbers that its sensor yields. -/
theorem smoother_sample (p : Policy α) (core : Core α) (t : Testbed α)
    (hwired : p.readsMachines = true → p.channels = t.machines.length) (index : Nat)
    (r : Resource) :
    (p.sample core t).policy.smoother? index r
      = (p.smoother? index r).map fun s =>
        (numbers (t.sensor (.machine index r)).polled).foldl SingleSmoother.smooth s := by
  cases p with
  | monitor c => rfl
  | fuzzy c =>
    have hlength : c.channels.length = t.machines.length := hwired rfl
    show ((Controller.sampleMachines t.machines c.channels).channels[index]?.map
      fun cs => (cs.get r).smoother) = (c.channels[index]?.map _).map _
    cases hcs' : (Controller.sampleMachines t.machines c.channels).channels[index]? with
    | some cs' =>
      obtain ⟨m, cs, hm, hcs, htake⟩ := Controller.getElem?_sampleMachines hlength hcs'
      have hsensor : t.sensor (.machine index r) = m.sensors.get r := by
        simp [Testbed.sensor, hm]
      rw [hcs, hsensor, ← Sensor.values_read]
      exact congrArg (fun k : Channel α => some k.smoother) (htake r)
    | none =>
      -- A sample keeps the number of channels, so there was none before either.
      have hout := List.getElem?_eq_none_iff.mp hcs'
      rw [(Controller.length_sampleMachines t.machines c.channels).2] at hout
      rw [List.getElem?_eq_none hout]
      rfl

theorem smoother_control (p : Policy α) (core : Core α) (t : Testbed α) (storage : Storage)
    (stamp : Int) (index : Nat) (r : Resource) :
    (p.control core t storage stamp).policy.smoother? index r = p.smoother? index r := by
  cases p with
  | monitor c => rfl
  | fuzzy c =>
    show ((c.channels.map (·.map Channel.rest))[index]?.map fun cs => (cs.get r).smoother) = _
    rw [List.getElem?_map, Option.map_map]
    simp only [Function.comp_def, PerResource.get_map]
    rfl

end Policy

/-! ## §2. What a run adds. -/

namespace Station

variable {s start : Station α} {run : List (Int × Action α)}

/-- **A statistic of a run is a fold** over the numbers drained from a source, if each operation
adds to it those that it drains. -/
theorem after_folds {β : Type} (value : Station α → Option β) (add : β → α → β) (source : Source)
    (hrun : ∀ x ∈ run, x.2.isOperation = true)
    (hstep : ∀ s, start.Stays s → ∀ x ∈ run, value (s.perform x.1 x.2).station
      = (value s).map fun b => (numbers (s.drainedBy source x.2)).foldl add b) :
    value (start.after run)
      = (value start).map fun b => (numbers (start.drained source run)).foldl add b := by
  induction run using List.reverseRecOn with
  | nil => exact Option.map_id'.symm
  | append_singleton run x ih =>
    rw [List.forall_mem_append, List.forall_mem_singleton] at hrun
    have hlast := hstep _ (start.stays_after hrun.1) x (List.mem_append_right _ List.mem_cons_self)
    rw [after_concat, hlast, ih hrun.1 fun s hs y hy => hstep s hs y (List.mem_append_left _ hy),
      Option.map_map, drained_concat, numbers_append]
    simp only [Function.comp_def, List.foldl_append]

/-- What an operation adds to an estimator, unless it begins the next interval. -/
theorem estimator_perform (hs : s.Wired) {m : Metric} (h : s.Reads (.output m)) (stamp : Int)
    {a : Action α} (ha : a.isOperation = true)
    (hopen : s.manager.core.resetsEachInterval = true → a ≠ .control) :
    (s.perform stamp a).station.manager.core.estimators.get m
      = (s.manager.core.estimators.get m).map fun e =>
        (numbers (s.drainedBy (.output m) a)).foldl Estimator.collect e := by
  have hsame : s.manager.core.estimators.get m
      = (s.manager.core.estimators.get m).map fun e => ([] : List α).foldl Estimator.collect e :=
    Option.map_id'.symm
  cases a with
  | feed items => exact hsame
  | failMachine index r => exact hsame
  | failOutput k => exact hsame
  | refuse index on => exact hsame
  | sample => exact s.manager.policy.estimator_sample _ _ (hs.reads h)
  | control =>
    -- A control is allowed here only if it clears nothing.
    have hkeeps : s.manager.core.resetsEachInterval = false :=
      Bool.eq_false_iff.mpr fun hresets => hopen hresets rfl
    have hcore : (s.control stamp).station.manager.core = s.manager.core := by
      rw [core_control]
      unfold Core.endInterval
      rw [hkeeps]
      rfl
    show (s.control stamp).station.manager.core.estimators.get m = _
    rw [hcore]
    exact hsame
  | _ => cases ha

/-- What an operation adds to a level. -/
theorem smoother_perform (hs : s.Wired) (stamp : Int) {a : Action α} (ha : a.isOperation = true)
    (index : Nat) (r : Resource) :
    (s.perform stamp a).station.manager.policy.smoother? index r
      = (s.manager.policy.smoother? index r).map fun k =>
        (numbers (s.drainedBy (.machine index r) a)).foldl SingleSmoother.smooth k := by
  have hsame : s.manager.policy.smoother? index r
      = (s.manager.policy.smoother? index r).map fun k =>
        ([] : List α).foldl SingleSmoother.smooth k := Option.map_id'.symm
  cases a with
  | feed items => exact hsame
  | failMachine index r => exact hsame
  | failOutput k => exact hsame
  | refuse index on => exact hsame
  | sample =>
    refine s.manager.policy.smoother_sample _ _ (fun hreads => ?_) index r
    rw [hs.machines, if_pos hreads]
  | control =>
    show (s.manager.policy.control _ _ _ _).policy.smoother? index r = _
    rw [Policy.smoother_control]
    exact hsame
  | _ => cases ha

/-! ## §3. Intervals. -/

/-- **The interval a run stands in**: what came after the last control, if estimates begin anew
after each control, and otherwise the whole run. -/
def Interval (start : Station α) (closed current : List (Int × Action α)) : Prop :=
  if start.manager.core.resetsEachInterval then
    (closed = [] ∨ ∃ past stamp, closed = past ++ [(stamp, .control)])
      ∧ ∀ x ∈ current, x.2 ≠ .control
  else closed = []

/-- **An interval begins** with an estimator that has seen nothing. -/
theorem estimator_closed {closed current : List (Int × Action α)} {m : Metric} {e : Estimator α}
    (hstart : start.manager.core.estimators.get m = some e.reset)
    (hclosed : ∀ x ∈ closed, x.2.isOperation = true) (h : start.Interval closed current) :
    (start.after closed).manager.core.estimators.get m = some e.reset := by
  by_cases hresets : start.manager.core.resetsEachInterval = true
  · unfold Interval at h
    rw [if_pos hresets] at h
    rcases h.1 with rfl | ⟨past, stamp, rfl⟩
    · exact hstart
    · rw [List.forall_mem_append] at hclosed
      have hstays := start.stays_after hclosed.1
      -- Whatever was seen in the past, the control has made the estimator forget.
      obtain ⟨f, hf, hget⟩ := (hstays.core e.reset).estimators m
      rw [after_concat]
      show ((start.after past).control stamp).station.manager.core.estimators.get m = _
      rw [core_control, Core.endInterval, if_pos (hstays.resets.trans hresets)]
      show ((start.after past).manager.core.estimators.map _).get m = _
      rw [PerMetric.get_map, hget, hstart, Option.map_some, Option.map_some, hf _ e.reset_reset]
  · unfold Interval at h
    rw [if_neg hresets] at h
    rw [h]
    exact hstart

/-- **The estimator in an interval** is a fold over the numbers drained in it. -/
theorem estimator_interval (hwired : start.Wired) {m : Metric} (hm : start.Reads (.output m))
    {closed current : List (Int × Action α)} {e : Estimator α}
    (hstart : start.manager.core.estimators.get m = some e.reset)
    (hrun : ∀ x ∈ closed ++ current, x.2.isOperation = true)
    (h : start.Interval closed current) :
    (start.after (closed ++ current)).manager.core.estimators.get m
      = some (e.reset.collectMany
        (numbers ((start.after closed).drained (.output m) current))) := by
  rw [List.forall_mem_append] at hrun
  have hstays := start.stays_after hrun.1
  rw [after_append, after_folds (fun s => s.manager.core.estimators.get m) Estimator.collect
    (.output m) hrun.2 fun s hs x hx => ?_]
  · rw [estimator_closed hstart hrun.1 h]
    rfl
  · -- The interval is open: no control in it clears the estimators.
    have hstays := hstays.trans hs
    refine estimator_perform (hstays.wired hwired) (hstays.reads.mpr hm) x.1 (hrun.2 x hx) ?_
    intro hresets
    rw [hstays.resets] at hresets
    unfold Interval at h
    rw [if_pos hresets] at h
    exact h.2 x hx

end Station

/-- The estimate over samples: none if there are none. -/
theorem Core.estimate?_collectMany {c : Core α} {m : Metric} {e : Estimator α} {values : List α}
    (h : c.estimators.get m = some (e.reset.collectMany values)) :
    c.estimate? m = if values.isEmpty then none else (e.reset.collectMany values).estimate? := by
  have hcount : (e.reset.collectMany values).count = values.length := by
    rw [Estimator.count_collectMany, Estimator.count_reset]
    omega
  cases values with
  | nil => exact estimate?_eq_none h hcount
  | cons v values =>
    refine estimate?_eq h ?_
    rw [hcount]
    exact Nat.succ_pos _

/-! ## §4. Attribution. -/

namespace Station

/-- **Readings are attributed** in a run: for a manager before its reset, the station just after,
and a run from there. -/
structure Attributed (manager : Manager α) (start : Station α) (run : List (Int × Action α)) :
    Prop where
  /-- A sensor that is read loses nothing, and its readings leave it in order. -/
  kept : ∀ source, start.Reads source →
    start.drained source run ++ (start.after run).held source = start.arrived source run
  /-- A reading is drained by the first sample after it whose poll works, and by no other. -/
  once : ∀ source, start.Reads source → ∀ past stamp later,
    run = past ++ (stamp, .sample) :: later → ∀ n, start.Drains source past n
      ↔ n < (start.arrived source past).length ∧ (start.after past).Polls source
        ∧ ¬ start.Polled source past n
  /-- A metric with a target is estimated by a fresh estimator of its kind, from the numbers that
  were drained in the current interval. -/
  estimated : ∀ closed current, run = closed ++ current → start.Interval closed current →
    ∀ m target, manager.core.targets.get m = some target →
      ∃ e fresh, manager.core.estimators.get m = some e ∧ e.kind.build = .ok fresh
        ∧ (start.after run).manager.core.targets.get m = some target
        ∧ (start.after run).manager.core.estimate? m
          = let values := numbers ((start.after closed).drained (.output m) current)
            if values.isEmpty then none else (fresh.collectMany values).estimate?
  /-- The level of a resource is that of a new smoother after all numbers drained in the run. -/
  levelled : ∀ index r, start.Reads (.machine index r) →
    ∃ factor fresh, manager.policy.smoothingFactor? = some factor
      ∧ SingleSmoother.new factor = .ok fresh
      ∧ (start.after run).manager.policy.smoother? index r
        = some ((numbers (start.drained (.machine index r) run)).foldl SingleSmoother.smooth fresh)

variable [OrderedScalar α]

/-- **No reading is lost, used twice or credited to the wrong interval**, in any run of operations
after a reset that succeeded. -/
theorem readings_attributed {s : Station α} (hs : s.Reachable) (stamp : Int)
    (hreset : (s.perform stamp .reset).result = .ok .done) {run : List (Int × Action α)}
    (hrun : ∀ x ∈ run, x.2.isOperation = true) :
    Attributed s.manager (s.perform stamp .reset).station run := by
  change s.reset.result = .ok .done at hreset
  show Attributed s.manager s.reset.station run
  have hwired := wired_reset hreset
  have hbegins := (reset_ok hreset).2
  refine ⟨fun source h => drained_append_held hwired h hrun, fun source h past stamp later hsplit => ?_,
    fun closed current hsplit hinterval m target htarget => ?_, fun index r h => ?_⟩
  · rw [hsplit, List.forall_mem_append] at hrun
    exact drains_iff hwired h hrun.1
  · have htargets : s.reset.station.manager.core.targets = s.manager.core.targets := by
      rw [hbegins]
      rfl
    obtain ⟨e, he⟩ := Option.isSome_iff_exists.mp
      (hs.sound.core.estimated m (Option.isSome_iff_exists.mpr ⟨target, htarget⟩))
    have hfresh : s.reset.station.manager.core.estimators.get m = some e.reset := by
      rw [hbegins]
      show (s.manager.core.estimators.map _).get m = _
      rw [PerMetric.get_map, he]
      rfl
    have hreads : s.reset.station.Reads (.output m) := by
      show (s.reset.station.manager.core.targets.get m).isSome = true
      rw [htargets, htarget]
      rfl
    subst hsplit
    -- The estimator that the reset has cleared is the one that its kind builds.
    refine ⟨e, e.reset, he, Estimator.build_kind (hs.sound.core.estimator m e he), ?_,
      Core.estimate?_collectMany (estimator_interval hwired hreads hfresh hrun hinterval)⟩
    rw [(s.reset.station.stays_after hrun).targets, htargets, htarget]
  · obtain ⟨hmachines, hindex⟩ := h
    rw [hbegins] at hmachines hindex
    have hfold := after_folds (fun s => s.manager.policy.smoother? index r) SingleSmoother.smooth
      (.machine index r) hrun fun s' hstays x hx =>
        smoother_perform (hstays.wired hwired) x.1 (hrun x hx) index r
    cases hpolicy : s.manager.policy with
    | monitor c =>
      -- The monitor reads no sensor of a machine.
      change (s.manager.policy.begun _ _ _).readsMachines = true at hmachines
      rw [hpolicy] at hmachines
      cases hmachines
    | fuzzy c =>
      have hfactor := (hs.sound.policy c hpolicy).factor
      refine ⟨c.smoothingFactor, ⟨c.smoothingFactor, none⟩, rfl,
        map_eq_ok_iff.mpr ⟨c.smoothingFactor, if_pos hfactor, rfl⟩, ?_⟩
      have hnew : s.reset.station.manager.policy.smoother? index r
          = some ⟨c.smoothingFactor, none⟩ := by
        rw [hbegins]
        show (s.manager.policy.begun _ _ _).smoother? index r = _
        rw [hpolicy]
        show ((s.testbed.machines.map _)[index]?.map _) = _
        change index < s.testbed.machines.length at hindex
        rw [List.getElem?_map, List.getElem?_eq_getElem hindex, Option.map_some, Option.map_some,
          PerResource.get_const]
      rw [hfold, hnew]
      rfl

/-- In the first interval the poll fails; in the second it works, after another reading. -/
def delayedRun : List (Int × Action Extended) :=
  [(0, .feed [.output .responseTime 3.0, .machine 0 .cpu 0.5]), (0, .failOutput .responseTime),
    (0, .sample), (0, .control), (1, .feed [.output .responseTime 5.0]), (1, .sample)]

/-- In a trial both readings of the response time count for the second interval, and the reading of
the processor for the first. -/
theorem readings_attributed_trial :
    Attributed trial.manager (trial.perform 0 .reset).station delayedRun
      ∧ ((trial.perform 0 .reset).station.after delayedRun).manager.core.estimate? .responseTime
        = some 4.0 := by
  have hreset : (trial.perform 0 .reset).result = .ok .done :=
    Performed.result_of_isDone (by decide +kernel)
  have hrun : ∀ x ∈ delayedRun, x.2.isOperation = true := by
    simp [delayedRun, Action.isOperation]
  exact ⟨readings_attributed reachable_trial 0 hreset hrun, by decide +kernel⟩

end Station

end CapacityControl.Control
