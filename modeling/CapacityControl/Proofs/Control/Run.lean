/-
  CapacityControl.Proofs.Control.Run
  ──────────────────────────────────
  RUNS OF THE FUZZY CONTROLLER.  After a reset that succeeded, readings come in, sensors
  fail, machines refuse, and the controller samples and controls, in any order.  All the
  while its channels belong to the machines of the testbed and its statistics are
  rational (`Station.Running`), and a channel has observed something exactly if a number
  was delivered to it since the last control (`Station.running_tracks`).
-/
import CapacityControl.Proofs.Control.Reachable
import CapacityControl.Proofs.Control.Sampling

namespace CapacityControl.Control

open Stats
open Extended (finite)

/-! ## §1. Runs. -/

section Runs

variable {α : Type} [Scalar α]

/-- What may happen in a run: anything but settings and further resets. -/
def Action.isOperation : Action α → Bool
  | .feed _ | .failMachine _ _ | .failOutput _ | .refuse _ _ | .sample | .control => true
  | _ => false

namespace Station

/-- The sensor of a resource at the `i`-th machine delivers if it is read now. -/
def DeliversAt (s : Station α) (i : Nat) (r : Resource) : Prop :=
  ∃ m, s.testbed.machines[i]? = some m ∧ (m.sensors.get r).Delivers

/-- **A number was delivered** for a resource of the `i`-th machine in a run: some sample after
the last control, if there was one, met a sensor that delivers. -/
def Delivered (start : Station α) (run : List (Int × Action α)) (i : Nat) (r : Resource) : Prop :=
  ∃ before stamp later, run = before ++ (stamp, .sample) :: later
    ∧ (∀ x ∈ later, x.2 ≠ .control) ∧ (start.after before).DeliversAt i r

theorem not_delivered_nil (start : Station α) (i : Nat) (r : Resource) :
    ¬ start.Delivered [] i r := by
  rintro ⟨before, stamp, later, hrun, _⟩
  cases before with
  | nil => cases hrun
  | cons x before => cases hrun

omit [Scalar α] in
/-- The samples of a run that goes on by one action: that action, or a sample before it. -/
theorem exists_sample_concat {run : List (Int × Action α)} {x : Int × Action α}
    {P : List (Int × Action α) → List (Int × Action α) → Prop} :
    (∃ before stamp later, run ++ [x] = before ++ (stamp, .sample) :: later ∧ P before later)
      ↔ (x.2 = .sample ∧ P run [])
        ∨ ∃ before stamp later, run = before ++ (stamp, .sample) :: later
          ∧ P before (later ++ [x]) := by
  constructor
  · rintro ⟨before, stamp, later, hrun, hP⟩
    rcases List.eq_nil_or_concat' later with rfl | ⟨front, y, rfl⟩
    · obtain ⟨hbefore, hlast⟩ := List.append_inj' hrun rfl
      cases hbefore
      cases hlast
      exact Or.inl ⟨rfl, hP⟩
    · rw [← List.cons_append, ← List.append_assoc] at hrun
      obtain ⟨hfront, hlast⟩ := List.append_inj' hrun rfl
      cases hlast
      exact Or.inr ⟨before, stamp, front, hfront, hP⟩
  · rintro (⟨hsample, hP⟩ | ⟨before, stamp, later, rfl, hP⟩)
    · refine ⟨run, x.1, [], ?_, hP⟩
      rw [← hsample]
    · refine ⟨before, stamp, later ++ [x], ?_, hP⟩
      rw [List.append_assoc, List.cons_append]

/-- What the last action of a run means for what was delivered. -/
theorem delivered_concat (start : Station α) (run : List (Int × Action α)) (x : Int × Action α)
    (i : Nat) (r : Resource) :
    start.Delivered (run ++ [x]) i r
      ↔ (x.2 = .sample ∧ (start.after run).DeliversAt i r)
        ∨ (x.2 ≠ .control ∧ start.Delivered run i r) := by
  unfold Delivered
  rw [exists_sample_concat]
  simp only [List.not_mem_nil, List.forall_mem_append, List.forall_mem_singleton]
  -- The last action is the sample that delivered, or it must not be a control.
  constructor
  · rintro (⟨hsample, _, hdelivers⟩ | ⟨before, stamp, later, hrun, ⟨hlater, hx⟩, hdelivers⟩)
    · exact Or.inl ⟨hsample, hdelivers⟩
    · exact Or.inr ⟨hx, before, stamp, later, hrun, hlater, hdelivers⟩
  · rintro (⟨hsample, hdelivers⟩ | ⟨hx, before, stamp, later, hrun, hlater, hdelivers⟩)
    · exact Or.inl ⟨hsample, fun _ hnone => hnone.elim, hdelivers⟩
    · exact Or.inr ⟨before, stamp, later, hrun, ⟨hlater, hx⟩, hdelivers⟩

end Station

end Runs

/-! ## §2. What holds in a run. -/

/-- All that the estimators have seen is rational. -/
def Core.Exact (c : Core Extended) : Prop := ∀ m e, c.estimators.get m = some e → e.Exact

namespace Core

theorem exact_endInterval (c : Core Extended) : MovesOn Estimator.Exact c c.endInterval :=
  movesOn_endInterval (fun _ he => he.reset) c

theorem exact_sample (c : Core Extended) (t : Testbed Extended) (wired : PerMetric Bool) :
    MovesOn Estimator.Exact c (c.sample t wired).core :=
  movesOn_sample (fun _ hvalues _ he => he.collectMany hvalues) c t wired

/-- Sound estimators are rational after a reset of the statistics. -/
theorem Sound.exact_resetStatistics {c : Core Extended} (hc : c.Sound) :
    c.resetStatistics.Exact := by
  intro m e he
  change (c.estimators.map (·.map Estimator.reset)).get m = some e at he
  rw [PerMetric.get_map, Option.map_eq_some_iff] at he
  obtain ⟨before, hbefore, rfl⟩ := he
  exact (hc.estimator m before hbefore).exact_reset

end Core

namespace Station

/-- **A station in a run** of a fuzzy controller: there are targets, every machine has its
channels, and all that was observed is rational. -/
structure Running (s : Station Extended) (c : Controller Extended) : Prop where
  policy : s.manager.policy = .fuzzy c
  aimed : s.manager.core.hasTarget = true
  wired : c.channels.length = s.testbed.machines.length
  channel : ∀ cs ∈ c.channels, ∀ r, (cs.get r).Exact
  estimator : s.manager.core.Exact

variable {s : Station Extended} {c : Controller Extended}

/-- Readings, failures and refusals reach the testbed only. -/
theorem Running.withTestbed (h : s.Running c) {t : Testbed Extended}
    (ht : t.machines.length = s.testbed.machines.length) :
    Running { s with testbed := t } c :=
  ⟨h.policy, h.aimed, h.wired.trans ht.symm, h.channel, h.estimator⟩

/-- A sample of a station is one of its controller. -/
theorem sample_fuzzy (hc : s.manager.policy = .fuzzy c) :
    s.sample.station
      = { s with
          manager := { s.manager with
            core := (c.sample s.manager.core s.testbed).core
            policy := .fuzzy (c.sample s.manager.core s.testbed).policy }
          testbed := (c.sample s.manager.core s.testbed).testbed } := by
  unfold Station.sample Manager.sample
  rw [hc]
  rfl

theorem Running.sample (h : s.Running c) :
    s.sample.station.Running
      { c with channels :=
          (Controller.sampleMachines s.testbed.machines c.channels).channels } := by
  obtain ⟨hmachines, hchannels⟩ :=
    Controller.length_sampleMachines s.testbed.machines c.channels
  rw [sample_fuzzy h.policy]
  refine ⟨rfl, ?_, ?_, ?_, ?_⟩
  · exact (Core.exact_sample _ _ _).hasTarget.trans h.aimed
  · show (Controller.sampleMachines s.testbed.machines c.channels).channels.length
      = (Core.sample _ _ _).testbed.machines.length
    rw [Core.machines_sample, hchannels, h.wired]
    exact hmachines.symm
  · intro cs' hcs' r
    obtain ⟨i, hi⟩ := List.mem_iff_getElem?.mp hcs'
    obtain ⟨m, cs, _, hcs, htake⟩ := Controller.getElem?_sampleMachines h.wired hi
    rw [htake r]
    exact (h.channel cs (List.mem_of_getElem? hcs) r).take fun v hv =>
      Sensor.isFinite_of_mem_values hv
  · exact (Core.exact_sample _ _ _).keeps h.estimator

/-- A control of a station is one of its controller. -/
theorem control_fuzzy (hc : s.manager.policy = .fuzzy c) (stamp : Int) :
    (s.control stamp).station
      = { s with
          manager := { s.manager with
            core := s.manager.core.endInterval
            policy := .fuzzy (c.control s.manager.core s.testbed s.storage stamp).policy }
          testbed := (c.control s.manager.core s.testbed s.storage stamp).testbed
          storage := (c.control s.manager.core s.testbed s.storage stamp).storage } := by
  unfold Station.control Manager.control
  rw [hc]
  rfl

theorem Running.control (h : s.Running c) (stamp : Int) :
    ∃ c', (s.control stamp).station.Running c'
      ∧ c'.channels = c.channels.map (·.map Channel.rest) := by
  refine ⟨(c.control s.manager.core s.testbed s.storage stamp).policy, ?_, rfl⟩
  rw [control_fuzzy h.policy]
  refine ⟨rfl, ?_, ?_, ?_, (Core.exact_endInterval _).keeps h.estimator⟩
  · exact (Core.exact_endInterval _).hasTarget.trans h.aimed
  · show (c.channels.map _).length = (c.decide s.testbed s.manager.core.readings).machines.length
    rw [List.length_map, Controller.length_decide]
    exact h.wired
  · intro cs hcs r
    obtain ⟨before, hbefore, rfl⟩ := List.mem_map.mp hcs
    rw [PerResource.get_map]
    exact (h.channel before hbefore r).rest

/-- **What an action does in a run**: it goes on, and only samples and controls change the
channels. -/
theorem Running.perform (h : s.Running c) (stamp : Int) {a : Action Extended}
    (ha : a.isOperation = true) :
    ∃ c', (s.perform stamp a).station.Running c'
      ∧ ((a = .sample ∧ c'.channels
            = (Controller.sampleMachines s.testbed.machines c.channels).channels)
          ∨ (a = .control ∧ c'.channels = c.channels.map (·.map Channel.rest))
          ∨ (a ≠ .sample ∧ a ≠ .control ∧ c'.channels = c.channels)) := by
  cases a with
  | feed items =>
    exact ⟨c, h.withTestbed (length_feed s.testbed items), Or.inr (Or.inr ⟨nofun, nofun, rfl⟩)⟩
  | failMachine index r =>
    exact ⟨c, h.withTestbed (List.length_modify _ _ _), Or.inr (Or.inr ⟨nofun, nofun, rfl⟩)⟩
  | failOutput m =>
    exact ⟨c, h.withTestbed rfl, Or.inr (Or.inr ⟨nofun, nofun, rfl⟩)⟩
  | refuse index on =>
    exact ⟨c, h.withTestbed (List.length_modify _ _ _), Or.inr (Or.inr ⟨nofun, nofun, rfl⟩)⟩
  | sample => exact ⟨_, h.sample, Or.inl ⟨rfl, rfl⟩⟩
  | control =>
    obtain ⟨c', hrunning, hchannels⟩ := h.control stamp
    exact ⟨c', hrunning, Or.inr (Or.inl ⟨rfl, hchannels⟩)⟩
  | _ => cases ha

end Station

/-! ## §3. From a reset on. -/

namespace Station

variable {s : Station Extended} {c : Controller Extended}

/-- **A run begins** with a reset that succeeded: nothing is observed yet. -/
theorem running_reset (hs : s.Sound) (hc : s.manager.policy = .fuzzy c) (stamp : Int)
    (hreset : (s.perform stamp .reset).result = .ok .done) :
    ∃ c', (s.perform stamp .reset).station.Running c'
      ∧ ∀ cs ∈ c'.channels, ∀ r, (cs.get r).observed = 0 := by
  change s.reset.result = .ok .done at hreset
  show ∃ c', s.reset.station.Running c' ∧ _
  obtain ⟨_, hstation⟩ := reset_ok hreset
  obtain ⟨_, hfound⟩ := reset_found hreset
  unfold Station.obstacle? at hfound
  rw [hc] at hfound
  rw [hstation]
  have hfactor := (hs.policy c hc).factor
  rw [Extended.zero_eq, Extended.one_eq] at hfactor
  obtain ⟨f, hf, _⟩ :=
    Extended.exists_finite_of_le (Extended.le_of_lt hfactor.1) hfactor.2
  -- Every channel is the new one of its machine.
  have hnew : ∀ cs ∈ s.testbed.machines.map fun _ =>
      PerResource.const ⟨⟨c.smoothingFactor, none⟩, 0⟩, ∀ r,
        cs.get r = (⟨⟨c.smoothingFactor, none⟩, 0⟩ : Channel Extended) := by
    intro cs hcs r
    obtain ⟨_, _, rfl⟩ := List.mem_map.mp hcs
    exact PerResource.get_const _ r
  have hpolicy : (s.beginning s.reopened.log s.reopened.storage).manager.policy
      = (Policy.fuzzy c).begun s.manager.core.resetStatistics s.testbed s.reopened.log :=
    congrArg (·.begun s.manager.core.resetStatistics s.testbed s.reopened.log) hc
  refine ⟨_, ⟨hpolicy, Policy.hasTarget_of_obstacle?_none hfound, ?_, ?_,
    hs.core.exact_resetStatistics⟩, ?_⟩
  · exact List.length_map _
  · intro cs hcs r
    rw [hnew cs hcs r]
    exact Channel.exact_new ⟨f, hf⟩
  · intro cs hcs r
    rw [hnew cs hcs r]

/-- **The counts track the deliveries**: a channel has observed something exactly if a number
was delivered to it since the last control. -/
def Tracks (c : Controller Extended) (start : Station Extended)
    (run : List (Int × Action Extended)) : Prop :=
  ∀ (i : Nat) (cs : PerResource (Channel Extended)) (r : Resource),
    c.channels[i]? = some cs → ((cs.get r).observed ≠ 0 ↔ start.Delivered run i r)

section Tracks

variable {start : Station Extended} {run : List (Int × Action Extended)}
  {c' : Controller Extended}

/-- A sample counts what was observed before, and what the sensors yield now. -/
theorem Tracks.sample (h : Tracks c start run) (hrunning : (start.after run).Running c)
    (stamp : Int)
    (hchannels : c'.channels
      = (Controller.sampleMachines (start.after run).testbed.machines c.channels).channels) :
    Tracks c' start (run ++ [(stamp, .sample)]) := by
  intro i cs' r hcs'
  rw [hchannels] at hcs'
  obtain ⟨m, cs, hm, hcs, htake⟩ := Controller.getElem?_sampleMachines hrunning.wired hcs'
  have hdelivers : (start.after run).DeliversAt i r ↔ (m.sensors.get r).Delivers := by
    constructor
    · rintro ⟨m', hm', h⟩
      cases hm.symm.trans hm'
      exact h
    · intro h
      exact ⟨m, hm, h⟩
  rw [delivered_concat, htake r, Channel.observed_take_ne_zero, Sensor.values_ne_nil_iff,
    h i cs r hcs, hdelivers]
  constructor
  · rintro (hnow | hbefore)
    · exact Or.inl ⟨rfl, hnow⟩
    · exact Or.inr ⟨nofun, hbefore⟩
  · rintro (⟨_, hnow⟩ | ⟨_, hbefore⟩)
    · exact Or.inl hnow
    · exact Or.inr hbefore

/-- A control begins the next interval: nothing is observed, and nothing delivered. -/
theorem Tracks.control (stamp : Int)
    (hchannels : c'.channels = c.channels.map (·.map Channel.rest)) :
    Tracks c' start (run ++ [(stamp, .control)]) := by
  intro i cs' r hcs'
  rw [hchannels, List.getElem?_map, Option.map_eq_some_iff] at hcs'
  obtain ⟨cs, _, rfl⟩ := hcs'
  rw [delivered_concat, PerResource.get_map]
  constructor
  · intro hne
    exact absurd rfl hne
  · rintro (⟨hsample, _⟩ | ⟨hcontrol, _⟩)
    · cases hsample
    · exact absurd rfl hcontrol

/-- Nothing else is observed, or delivered. -/
theorem Tracks.other (h : Tracks c start run) {x : Int × Action Extended} (hsample : x.2 ≠ .sample)
    (hcontrol : x.2 ≠ .control) (hchannels : c'.channels = c.channels) :
    Tracks c' start (run ++ [x]) := by
  intro i cs r hcs
  rw [hchannels] at hcs
  rw [delivered_concat, h i cs r hcs]
  constructor
  · intro hbefore
    exact Or.inr ⟨hcontrol, hbefore⟩
  · rintro (⟨hnow, _⟩ | ⟨_, hbefore⟩)
    · exact absurd hnow hsample
    · exact hbefore

end Tracks

/-- **What a channel has observed** in a run: its counts track the deliveries throughout. -/
theorem running_tracks {start : Station Extended} {c₀ : Controller Extended}
    (hstart : start.Running c₀) (hnew : ∀ cs ∈ c₀.channels, ∀ r, (cs.get r).observed = 0)
    {run : List (Int × Action Extended)} (hrun : ∀ x ∈ run, x.2.isOperation = true) :
    ∃ c, (start.after run).Running c ∧ Tracks c start run := by
  induction run using List.reverseRecOn with
  | nil =>
    refine ⟨c₀, hstart, fun i cs r hcs => ?_⟩
    rw [hnew cs (List.mem_of_getElem? hcs) r]
    exact ⟨fun hne => absurd rfl hne, fun h => absurd h (start.not_delivered_nil i r)⟩
  | append_singleton run x ih =>
    obtain ⟨c, hrunning, htracks⟩ := ih fun y hy => hrun y (List.mem_append_left _ hy)
    obtain ⟨c', hrunning', hchannels⟩ :=
      hrunning.perform x.1 (hrun x (List.mem_append_right _ (List.mem_singleton_self x)))
    refine ⟨c', ?_, ?_⟩
    · rw [after_concat]
      exact hrunning'
    · obtain ⟨stamp, a⟩ := x
      rcases hchannels with ⟨rfl, hchannels⟩ | ⟨rfl, hchannels⟩ | ⟨hsample, hcontrol, hchannels⟩
      · exact htracks.sample hrunning stamp hchannels
      · exact Tracks.control stamp hchannels
      · exact htracks.other hsample hcontrol hchannels

end Station

end CapacityControl.Control
