/-
  CapacityControl.Proofs.Control.Baseline
  ───────────────────────────────────────
  THE MONITOR IS A BASELINE for the fuzzy controller.  What the readings of targets depend
  on is the application's side of a station (`Station.front`), and every action moves it in
  the same way whichever policy is at work: sensors of machines, levels, the engine, the
  shares and the log do not enter (`Station.front_after`).  So two stations that go through
  the same pushes to the application, failures of its sensors, samples, controls and resets
  read the same at every control, and a control that the monitor skips for want of an
  estimate the fuzzy controller skips as well (`Station.comparable`).
-/
import CapacityControl.Proofs.Control.Attribution
import Mathlib.Data.List.Forall2

namespace CapacityControl

/-- The table of the values of a function. -/
def PerMetric.tabulate {β : Type} (f : Metric → β) : PerMetric β := ⟨f .responseTime, f .throughput⟩

theorem PerMetric.get_tabulate {β : Type} (f : Metric → β) (m : Metric) :
    (PerMetric.tabulate f).get m = f m := by
  cases m <;> rfl

namespace Control

open Stats

variable {α : Type} [Scalar α]

/-! ## §1. The application's side. -/

/-- **The application's side of a station**: its targets and estimators, whether estimates begin
anew after each control, the sensors that were found and what they hold, and the number of
controls. -/
structure Front (α : Type) where
  targets : PerMetric (Option α)
  estimators : PerMetric (Option (Estimator α))
  resetsEachInterval : Bool
  wired : PerMetric Bool
  outputs : PerMetric (Sensor α)
  controls : UInt64

/-- What can happen to the application's side. -/
inductive Stimulus (α : Type) where
  | push (metric : Metric) (value : α)
  | fail (metric : Metric)
  | sample
  | control
  | reset

namespace Front

/-- What comes of a stimulus. -/
def step (f : Front α) : Stimulus α → Front α
  | .push m value => { f with outputs := f.outputs.modify m (·.push ⟨m.name, value⟩) }
  | .fail m => { f with outputs := f.outputs.modify m Sensor.failNext }
  | .sample => { f with
      estimators := .tabulate fun m =>
        if f.wired.get m then
          (f.estimators.get m).map (·.collectMany (f.outputs.get m).read.1.values)
        else f.estimators.get m
      outputs := .tabulate fun m =>
        if f.wired.get m then (f.outputs.get m).read.2 else f.outputs.get m }
  | .control => { f with
      estimators := if f.resetsEachInterval then f.estimators.map (·.map Estimator.reset)
        else f.estimators
      controls := f.controls + 1 }
  | .reset => { f with
      estimators := f.estimators.map (·.map Estimator.reset)
      wired := f.targets.map Option.isSome
      controls := 0 }

/-- The sides from which controls are made while stimuli come. -/
def controlled (f : Front α) : List (Stimulus α) → List (Front α)
  | [] => []
  | .control :: rest => f :: controlled (f.step .control) rest
  | stimulus :: rest => controlled (f.step stimulus) rest

end Front

/-- What an item pushes to the application. -/
def Item.stimulus? : Item α → Option (Stimulus α)
  | .machine _ _ _ => none
  | .output m value => some (.push m value)

/-- **What an action means for the application's side.** -/
def Action.stimuli : Action α → List (Stimulus α)
  | .feed items => items.filterMap Item.stimulus?
  | .failOutput m => [.fail m]
  | .sample => [.sample]
  | .control => [.control]
  | .reset => [.reset]
  | _ => []

/-- What a run means for the application's side. -/
def stimuli (run : List (Int × Action α)) : List (Stimulus α) := run.flatMap fun x => x.2.stimuli

namespace Station

/-- The application's side. -/
def front (s : Station α) : Front α where
  targets := s.manager.core.targets
  estimators := s.manager.core.estimators
  resetsEachInterval := s.manager.core.resetsEachInterval
  wired := s.manager.policy.wired
  outputs := s.testbed.outputs
  controls := s.manager.policy.counters.controls

/-! ## §2. One action. -/

/-- Only what is pushed to the application reaches its side. -/
theorem front_feed (s : Station α) (items : List (Item α)) :
    (s.feed items).front = (items.filterMap Item.stimulus?).foldl Front.step s.front := by
  induction items generalizing s with
  | nil => rfl
  | cons item items ih =>
    cases item with
    | machine index r value => exact ih (s.feed [.machine index r value])
    | output m value => exact ih (s.feed [.output m value])

/-- Reading the sensors of the application, as its side sees it. -/
theorem front_polled (s : Station α) (t : Testbed α) (ht : t.outputs = s.testbed.outputs)
    (policy : Policy α) (hwired : policy.wired = s.manager.policy.wired)
    (hcounters : policy.counters = s.manager.policy.counters) :
    let polled := s.manager.core.sample t s.manager.policy.wired
    ({ s with
        manager := { s.manager with core := polled.core, policy := policy }
        testbed := polled.testbed } : Station α).front = s.front.step .sample := by
  have hnodup := Core.nodup_all (PerMetric.get s.manager.policy.wired)
  have hmem : ∀ m, m ∈ Metric.all.filter s.manager.policy.wired.get
      ↔ s.manager.policy.wired.get m = true := fun m => by
    rw [List.mem_filter]
    exact and_iff_right (Core.mem_all m)
  have hestimators : (s.manager.core.sample t s.manager.policy.wired).core.estimators
      = (s.front.step .sample).estimators := by
    refine PerMetric.ext_get fun m => ?_
    show (List.foldl Core.sampleMetric _ _).core.estimators.get m = (PerMetric.tabulate _).get m
    rw [Core.estimator_sampleMetrics hnodup, PerMetric.get_tabulate]
    simp only [hmem, ht]
    rfl
  have houtputs : (s.manager.core.sample t s.manager.policy.wired).testbed.outputs
      = (s.front.step .sample).outputs := by
    refine PerMetric.ext_get fun m => ?_
    show (List.foldl Core.sampleMetric _ _).testbed.outputs.get m = (PerMetric.tabulate _).get m
    rw [Core.sensors_sampleMetrics hnodup, PerMetric.get_tabulate]
    simp only [hmem, ht]
    rfl
  obtain ⟨estimators, smoothers, hcore⟩ :=
    s.manager.core.core_sample t s.manager.policy.wired
  unfold front
  dsimp only
  rw [hestimators, houtputs, hcore, hwired, hcounters]
  rfl

/-- **A sample** moves the application's side alike for both policies. -/
theorem front_sample (s : Station α) : s.sample.station.front = s.front.step .sample := by
  unfold Station.sample Manager.sample
  cases hpolicy : s.manager.policy with
  | fuzzy c =>
    -- The machines are read first, which the application's side does not see.
    have hpolled := front_polled s
      { s.testbed with machines := (Controller.sampleMachines s.testbed.machines c.channels).machines }
      rfl (.fuzzy { c with
        channels := (Controller.sampleMachines s.testbed.machines c.channels).channels })
      (by rw [hpolicy]; rfl) (by rw [hpolicy]; rfl)
    rw [hpolicy] at hpolled
    exact hpolled
  | monitor c =>
    have hpolled := front_polled s s.testbed rfl (.monitor c) (by rw [hpolicy]) (by rw [hpolicy])
    rw [hpolicy] at hpolled
    exact hpolled

/-- **A control** closes the interval whatever it comes to. -/
theorem front_control (s : Station α) (stamp : Int) :
    (s.control stamp).station.front = s.front.step .control := by
  have hcore := s.core_control stamp
  have hrecord : ∀ (c : Counters) (o : Outcome α), (c.record o).controls = c.controls + 1 := by
    intro c o
    cases o <;> rfl
  have hpolicy : (s.control stamp).station.manager.policy.wired = s.manager.policy.wired
      ∧ (s.control stamp).station.manager.policy.counters.controls
        = s.manager.policy.counters.controls + 1
      ∧ (s.control stamp).station.testbed.outputs = s.testbed.outputs := by
    unfold Station.control Manager.control
    cases s.manager.policy with
    | fuzzy c => exact ⟨rfl, hrecord _ _, rfl⟩
    | monitor c => exact ⟨rfl, hrecord _ _, rfl⟩
  obtain ⟨hwired, hcontrols, houtputs⟩ := hpolicy
  unfold front Front.step
  rw [hcore, hwired, hcontrols, houtputs]
  unfold Core.endInterval
  dsimp only
  split <;> rfl

/-- **A reset that succeeds** begins the application's side anew. -/
theorem front_reset {s : Station α} (h : s.reset.result = .ok .done) :
    s.reset.station.front = s.front.step .reset := by
  obtain ⟨_, hstation⟩ := reset_ok h
  rw [hstation]
  unfold front beginning
  dsimp only
  rw [Policy.wired_begun, Policy.counters_begun]
  rfl

theorem front_perform (s : Station α) (stamp : Int) {a : Action α} (ha : a.isOperation = true) :
    (s.perform stamp a).station.front = a.stimuli.foldl Front.step s.front := by
  cases a with
  | feed items => exact s.front_feed items
  | failMachine index r => rfl
  | failOutput m => rfl
  | refuse index on => rfl
  | sample => exact s.front_sample
  | control => exact s.front_control stamp
  | _ => cases ha

/-! ## §3. Runs. -/

/-- **A run that proceeds**: operations, and resets that succeed. -/
def Proceeds (s : Station α) : List (Int × Action α) → Prop
  | [] => True
  | (stamp, a) :: run =>
    (a.isOperation = true ∨ a = .reset ∧ s.reset.result = .ok .done)
      ∧ Proceeds (s.perform stamp a).station run

section Proceeds

variable {P : Station α → Prop}
  (operation : ∀ s stamp (a : Action α), a.isOperation = true → P s →
    P (s.perform stamp a).station)
  (reset : ∀ s : Station α, s.reset.result = .ok .done → P s → P s.reset.station)
  {s : Station α} {run : List (Int × Action α)}

include operation reset

/-- What operations and successful resets keep, a run that proceeds keeps, up to any point. -/
theorem Proceeds.after_invariant (h : s.Proceeds run) (hs : P s) (n : Nat) :
    P (s.after (run.take n)) := by
  induction run generalizing s n with
  | nil =>
    rw [List.take_nil]
    exact hs
  | cons x run ih =>
    obtain ⟨stamp, a⟩ := x
    cases n with
    | zero => exact hs
    | succ n =>
      refine ih h.2 ?_ n
      rcases h.1 with ha | ⟨rfl, hreset⟩
      · exact operation s stamp a ha hs
      · exact reset s hreset hs

/-- So it holds of every station that makes a control. -/
theorem Proceeds.forall_controls (h : s.Proceeds run) (hs : P s) : ∀ x ∈ s.controls run, P x.2 := by
  induction run generalizing s with
  | nil => exact fun x hx => absurd hx List.not_mem_nil
  | cons y run ih =>
    obtain ⟨stamp, a⟩ := y
    intro x hx
    rcases List.mem_append.mp hx with hx | hx
    · have hself : x.2 = s := by
        rcases h.1 with ha | ⟨rfl, _⟩
        · cases a with
          | control =>
            rw [List.mem_singleton.mp hx]
          | feed _ | failMachine _ _ | failOutput _ | refuse _ _ | sample =>
            exact absurd hx List.not_mem_nil
          | _ => cases ha
        · exact absurd hx List.not_mem_nil
      rw [hself]
      exact hs
    · refine ih h.2 ?_ x hx
      rcases h.1 with ha | ⟨rfl, hreset⟩
      · exact operation s stamp a ha hs
      · exact reset s hreset hs

end Proceeds

theorem front_step {s : Station α} {stamp : Int} {a : Action α}
    (h : a.isOperation = true ∨ a = .reset ∧ s.reset.result = .ok .done) :
    (s.perform stamp a).station.front = a.stimuli.foldl Front.step s.front := by
  rcases h with ha | ⟨rfl, hreset⟩
  · exact s.front_perform stamp ha
  · exact front_reset hreset

/-- **The application's side after a run** depends on that side alone. -/
theorem front_after {s : Station α} {run : List (Int × Action α)} (h : s.Proceeds run) :
    (s.after run).front = (stimuli run).foldl Front.step s.front := by
  induction run generalizing s with
  | nil => rfl
  | cons x run ih =>
    obtain ⟨stamp, a⟩ := x
    show ((s.perform stamp a).station.after run).front = (a.stimuli ++ stimuli run).foldl _ _
    rw [ih h.2, front_step h.1, List.foldl_append]

end Station

theorem Front.controlled_append (f : Front α) (first rest : List (Stimulus α)) :
    f.controlled (first ++ rest) = f.controlled first ++ (first.foldl step f).controlled rest := by
  induction first generalizing f with
  | nil => rfl
  | cons stimulus first ih =>
    cases stimulus with
    | control => exact congrArg (f :: ·) (ih _)
    | _ => exact ih _

/-- What is pushed makes no controls. -/
theorem Front.controlled_pushes (f : Front α) (items : List (Item α)) :
    f.controlled (items.filterMap Item.stimulus?) = [] := by
  induction items generalizing f with
  | nil => rfl
  | cons item items ih =>
    cases item with
    | machine index r value => exact ih f
    | output m value => exact ih _

namespace Station

theorem front_controlsOf {s : Station α} {stamp : Int} {a : Action α}
    (h : a.isOperation = true ∨ a = .reset ∧ s.reset.result = .ok .done) :
    (s.controlsOf stamp a).map (·.2.front) = s.front.controlled a.stimuli := by
  rcases h with ha | ⟨rfl, _⟩
  · cases a with
    | feed items => exact (s.front.controlled_pushes items).symm
    | failMachine _ _ | failOutput _ | refuse _ _ | sample | control => rfl
    | _ => cases ha
  · rfl

/-- **What the controls of a run see of the application** depends on its side alone. -/
theorem front_controls {s : Station α} {run : List (Int × Action α)} (h : s.Proceeds run) :
    (s.controls run).map (·.2.front) = s.front.controlled (stimuli run) := by
  induction run generalizing s with
  | nil => rfl
  | cons x run ih =>
    obtain ⟨stamp, a⟩ := x
    show (s.controlsOf stamp a ++ controls (s.perform stamp a).station run).map _
      = s.front.controlled (a.stimuli ++ stimuli run)
    rw [List.map_append, front_controlsOf h.1, ih h.2, front_step h.1, Front.controlled_append]

/-! ## §4. The two policies. -/

/-- The policy in a run stays what it is. -/
theorem readsMachines_perform (s : Station α) (stamp : Int) {a : Action α}
    (ha : a.isOperation = true) :
    (s.perform stamp a).station.manager.policy.readsMachines = s.manager.policy.readsMachines :=
  (s.stays_perform stamp ha).readsMachines

theorem readsMachines_reset {s : Station α} (h : s.reset.result = .ok .done) :
    s.reset.station.manager.policy.readsMachines = s.manager.policy.readsMachines := by
  obtain ⟨_, hstation⟩ := reset_ok h
  rw [hstation]
  show (s.manager.policy.begun _ _ _).readsMachines = _
  cases s.manager.policy <;> rfl

end Station

omit [Scalar α] in
/-- Shares stay if the machine that is changed keeps its own. -/
theorem Testbed.shares_withMachine (t : Testbed α) (index : Nat) {f : Machine α → Machine α}
    (hf : ∀ m, (f m).shares = m.shares) : (t.withMachine index f).shares = t.shares := by
  refine List.ext_getElem? fun i => ?_
  show ((t.machines.modify index f).map (·.shares))[i]? = (t.machines.map (·.shares))[i]?
  rw [List.getElem?_map, List.getElem?_map, List.getElem?_modify]
  cases t.machines[i]? with
  | none => rfl
  | some m =>
    by_cases hi : index = i
    · simp [hi, hf]
    · simp [hi]

namespace Station

omit [Scalar α] in
theorem shares_feed (t : Testbed α) (items : List (Item α)) :
    (items.foldl push t).shares = t.shares := by
  induction items generalizing t with
  | nil => rfl
  | cons item items ih =>
    refine (ih (push t item)).trans ?_
    cases item with
    | machine index r value => exact t.shares_withMachine index fun _ => rfl
    | output m value => rfl

/-- A station of the monitor with these shares. -/
def Watches (shares : List (PerResource α)) (s : Station α) : Prop :=
  s.manager.policy.readsMachines = false ∧ s.testbed.shares = shares

/-- **The monitor changes no share**, and no other operation does. -/
theorem Watches.perform {shares : List (PerResource α)} {s : Station α} (h : s.Watches shares)
    (stamp : Int) {a : Action α} (ha : a.isOperation = true) :
    (s.perform stamp a).station.Watches shares := by
  refine ⟨(s.readsMachines_perform stamp ha).trans h.1, Eq.trans ?_ h.2⟩
  cases a with
  | feed items => exact shares_feed s.testbed items
  | failMachine index r => exact Testbed.shares_withMachine _ _ fun _ => rfl
  | failOutput m => rfl
  | refuse index on => exact Testbed.shares_withMachine _ _ fun _ => rfl
  | sample =>
    show (s.manager.policy.sample _ _).testbed.shares = _
    obtain ⟨c, hc⟩ := Policy.exists_monitor h.1
    rw [hc]
    exact congrArg (List.map Machine.shares) (Core.machines_sample _ _ _)
  | control =>
    show (s.manager.policy.control _ _ _ _).testbed.shares = _
    obtain ⟨c, hc⟩ := Policy.exists_monitor h.1
    rw [hc]
    rfl
  | _ => cases ha

theorem Watches.reset {shares : List (PerResource α)} {s : Station α} (h : s.Watches shares)
    (hreset : s.reset.result = .ok .done) : s.reset.station.Watches shares := by
  refine ⟨(readsMachines_reset hreset).trans h.1, ?_⟩
  rw [(reset_ok hreset).2]
  exact h.2

/-- **The same reading for both**: what a control of the fuzzy controller, `x`, and one of the
monitor, `y`, have in common. -/
structure Compared (x y : Int × Station α) : Prop where
  readings : y.2.manager.core.readings = x.2.manager.core.readings
  controls : y.2.manager.policy.counters.controls = x.2.manager.policy.counters.controls
  /-- The monitor applies or skips; it never fails. -/
  unfailing : (y.2.perform y.1 .control).result = .ok (.controlled .applied)
    ∨ ∃ reason, (y.2.perform y.1 .control).result = .ok (.controlled (.skipped reason))
  /-- What the monitor skips the fuzzy controller skips. -/
  skips : (∃ reason, (y.2.perform y.1 .control).result = .ok (.controlled (.skipped reason))) →
    ∃ reason, (x.2.perform x.1 .control).result = .ok (.controlled (.skipped reason))

theorem readings_front {s s' : Station α} (h : s'.front = s.front) :
    s'.manager.core.readings = s.manager.core.readings := by
  have htargets : s'.manager.core.targets = s.manager.core.targets := congrArg Front.targets h
  have hestimators : s'.manager.core.estimators = s.manager.core.estimators :=
    congrArg Front.estimators h
  unfold Core.readings Core.estimate?
  rw [htargets, hestimators]

/-- **Two controls from the same side**: the monitor only looks for estimates, and so does the
fuzzy controller before it decides. -/
theorem compared {x y : Int × Station α} (hfront : y.2.front = x.2.front)
    (hx : x.2.manager.policy.readsMachines = true)
    (hy : y.2.manager.policy.readsMachines = false) : Compared x y := by
  obtain ⟨c, hc⟩ := Policy.exists_fuzzy hx
  obtain ⟨d, hd⟩ := Policy.exists_monitor hy
  have hreadings := readings_front hfront
  have hmonitor : (y.2.perform y.1 .control).result
      = .ok (.controlled (Monitor.outcome x.2.manager.core.readings)) := by
    show Except.ok (Reply.controlled (y.2.manager.policy.control _ _ _ _).outcome) = _
    rw [hd, ← hreadings]
    rfl
  have hfuzzy : (x.2.perform x.1 .control).result
      = .ok (.controlled (c.decide x.2.testbed x.2.manager.core.readings).outcome) := by
    show Except.ok (Reply.controlled (x.2.manager.policy.control _ _ _ _).outcome) = _
    rw [hc]
    rfl
  refine ⟨hreadings, congrArg Front.controls hfront, ?_, ?_⟩
  · rw [hmonitor]
    unfold Monitor.outcome
    cases x.2.manager.core.readings.find? (·.estimate.isNone) with
    | none => exact Or.inl rfl
    | some r => exact Or.inr ⟨_, rfl⟩
  · rw [hmonitor, hfuzzy]
    rintro ⟨reason, hskipped⟩
    unfold Monitor.outcome at hskipped
    cases hmissing : x.2.manager.core.readings.find? (·.estimate.isNone) with
    | none =>
      rw [hmissing] at hskipped
      cases hskipped
    | some r =>
      -- Whether a machine delivered nothing or an estimate is missing, there is no driving error.
      have hdriving : ∃ reason, Controller.drivingError (c.managed x.2.testbed)
          x.2.manager.core.readings = .error reason := by
        unfold Controller.drivingError
        rw [hmissing]
        cases Controller.missingReading? (c.managed x.2.testbed) with
        | none => exact ⟨_, rfl⟩
        | some reason => exact ⟨_, rfl⟩
      obtain ⟨reason, hdriving⟩ := hdriving
      rcases c.decide_cases x.2.testbed x.2.manager.core.readings with
        ⟨reason, _, hdecide⟩ | ⟨error, hok, _⟩
      · exact ⟨reason, by rw [hdecide]⟩
      · cases hok.symm.trans hdriving

end Station

/-- **Two sides that begin alike**: the same targets, estimators of the same kind, the same
intervals and the same readings in the sensors. -/
structure Front.Akin (f f' : Front α) : Prop where
  targets : f'.targets = f.targets
  kinds : ∀ m, (f'.estimators.get m).map Estimator.kind = (f.estimators.get m).map Estimator.kind
  resetsEachInterval : f'.resetsEachInterval = f.resetsEachInterval
  outputs : f'.outputs = f.outputs

/-- A reset makes the same of them. -/
theorem Front.Akin.reset {f f' : Front α} (h : f.Akin f') : f'.step .reset = f.step .reset := by
  have hestimators : f'.estimators.map (·.map Estimator.reset)
      = f.estimators.map (·.map Estimator.reset) := by
    refine PerMetric.ext_get fun m => ?_
    rw [PerMetric.get_map, PerMetric.get_map]
    have hkind := h.kinds m
    cases hf : f.estimators.get m with
    | none =>
      rw [hf] at hkind
      rw [Option.map_eq_none_iff.mp hkind]
    | some e =>
      rw [hf] at hkind
      obtain ⟨e', hf', hkind⟩ := Option.map_eq_some_iff.mp hkind
      rw [hf']
      exact congrArg some (Estimator.reset_eq_of_kind hkind)
  unfold step
  rw [hestimators, h.targets, h.resetsEachInterval, h.outputs]

namespace Station

/-- **The monitor is a baseline for the fuzzy controller.**  Take two stations, one of each
policy, whose application's sides are the same or at least begin alike with a reset, and two runs
of operations and successful resets that mean the same for that side; what happens to machines
may differ.  Then the controls of both runs correspond: they read the same, are as many, and what
the monitor skips the fuzzy controller skips; the monitor never fails and never changes a
share. -/
theorem baseline_comparable {s s' : Station α} {c : Controller α} {c' : Monitor α}
    (hc : s.manager.policy = .fuzzy c) (hc' : s'.manager.policy = .monitor c')
    {run run' : List (Int × Action α)} (hrun : s.Proceeds run) (hrun' : s'.Proceeds run')
    (hsame : stimuli run' = stimuli run)
    (hstart : s'.front = s.front
      ∨ s.front.Akin s'.front ∧ (stimuli run).head? = some .reset) :
    List.Forall₂ Compared (s.controls run) (s'.controls run')
      ∧ (s'.after run').manager.policy.counters.controls
        = (s.after run).manager.policy.counters.controls
      ∧ ∀ n, (s'.after (run'.take n)).testbed.shares = s'.testbed.shares := by
  -- After a first reset the two sides are the same in any case.
  have hsides : s'.front.controlled (stimuli run) = s.front.controlled (stimuli run)
      ∧ (stimuli run).foldl Front.step s'.front = (stimuli run).foldl Front.step s.front := by
    rcases hstart with hfront | ⟨hakin, hreset⟩
    · rw [hfront]
      exact ⟨rfl, rfl⟩
    · obtain ⟨rest, hrest⟩ := List.head?_eq_some_iff.mp hreset
      rw [hrest]
      show (s'.front.step .reset).controlled rest = (s.front.step .reset).controlled rest
        ∧ rest.foldl Front.step (s'.front.step .reset) = rest.foldl Front.step (s.front.step .reset)
      rw [hakin.reset]
      exact ⟨rfl, rfl⟩
  have hfuzzy : ∀ x ∈ s.controls run, x.2.manager.policy.readsMachines = true :=
    hrun.forall_controls (P := fun s => s.manager.policy.readsMachines = true)
      (fun s stamp a ha hs => (s.readsMachines_perform stamp ha).trans hs)
      (fun s hreset hs => (readsMachines_reset hreset).trans hs) (by rw [hc]; rfl)
  have hwatches : s'.Watches s'.testbed.shares := ⟨by rw [hc']; rfl, rfl⟩
  have hmonitor : ∀ y ∈ s'.controls run', y.2.manager.policy.readsMachines = false := fun y hy =>
    (hrun'.forall_controls (fun s stamp a ha hs => hs.perform stamp ha)
      (fun s hreset hs => hs.reset hreset) hwatches y hy).1
  refine ⟨?_, ?_, fun n => ?_⟩
  · have hfronts : (s'.controls run').map (·.2.front) = (s.controls run).map (·.2.front) := by
      rw [front_controls hrun, front_controls hrun', hsame, hsides.1]
    rw [← List.forall₂_eq_eq_eq, List.forall₂_map_left_iff, List.forall₂_map_right_iff] at hfronts
    have hpairs := List.forall₂_and_left _ _ |>.mpr ⟨hmonitor, hfronts⟩
    have hpairs := List.forall₂_and_left _ _ |>.mpr ⟨hfuzzy, hpairs.flip⟩
    exact hpairs.imp fun x y ⟨hx, hy, hfront⟩ => compared hfront hx hy
  · have hfront : (s'.after run').front = (s.after run).front := by
      rw [front_after hrun, front_after hrun', hsame, hsides.2]
    exact congrArg Front.controls hfront
  · exact (hrun'.after_invariant (fun s stamp a ha hs => hs.perform stamp ha)
      (fun s hreset hs => hs.reset hreset) hwatches n).2

/-- The station for trials with another policy. -/
def trialWith (policy : Policy Extended) : Station Extended :=
  { trial with manager := { trial.manager with policy := policy } }

/-- Three controls: after a sample of everything that was pushed, after nothing, and after a
sample of one response alone.  Only the first push is one's own. -/
def baselineRun (first : List (Item Extended)) : List (Int × Action Extended) :=
  [(0, .reset), (0, .feed first), (0, .sample), (0, .control), (1, .control),
    (2, .feed [.output .responseTime 3.0]), (2, .sample), (2, .control)]

/-- In a trial the machine delivers numbers for the first control alone, so the third is applied
by the monitor and skipped by the fuzzy controller; the second both skip. -/
theorem baseline_comparable_trial :
    let run := baselineRun [.machine 0 .cpu 0.5, .output .responseTime 2.0, .machine 0 .memory 0.5]
    let run' := baselineRun [.output .responseTime 2.0]
    (trialWith untried).Proceeds run ∧ (trialWith (.monitor .new)).Proceeds run'
      ∧ stimuli run' = stimuli run
      ∧ (trialWith (.monitor .new)).front = (trialWith untried).front
      ∧ List.Forall₂ Compared ((trialWith untried).controls run)
        ((trialWith (.monitor .new)).controls run')
      ∧ ((trialWith untried).after run).manager.policy.counters = ⟨3, 2, 0, 1⟩
      ∧ ((trialWith (.monitor .new)).after run').manager.policy.counters = ⟨3, 1, 0, 2⟩ := by
  intro run run'
  have hrun : (trialWith untried).Proceeds run :=
    ⟨Or.inr ⟨rfl, Performed.result_of_isDone (p := (trialWith untried).reset) (by decide +kernel)⟩,
      Or.inl rfl, Or.inl rfl, Or.inl rfl, Or.inl rfl, Or.inl rfl, Or.inl rfl, Or.inl rfl, trivial⟩
  have hrun' : (trialWith (.monitor .new)).Proceeds run' :=
    ⟨Or.inr ⟨rfl, Performed.result_of_isDone (p := (trialWith (.monitor .new)).reset)
        (by decide +kernel)⟩,
      Or.inl rfl, Or.inl rfl, Or.inl rfl, Or.inl rfl, Or.inl rfl, Or.inl rfl, Or.inl rfl, trivial⟩
  have hfuzzy : (trialWith untried).manager.policy
      = .fuzzy ⟨0.9, surface, .zero, .const false, [], none⟩ := rfl
  have hmonitor : (trialWith (.monitor .new)).manager.policy = .monitor .new := rfl
  have hcompared := baseline_comparable hfuzzy hmonitor hrun hrun' rfl (Or.inl rfl)
  exact ⟨hrun, hrun', rfl, rfl, hcompared.1, by decide +kernel, by decide +kernel⟩

end Station

end Control

end CapacityControl
