/-
  CapacityControl.Proofs.Control.Applying
  ───────────────────────────────────────
  APPLYING A CONFIGURATION DURING A RUN.  Samples and controls never read the periods, the
  path of the log and the smoothing factor (`Station.perform_deferring`), so these wait for
  the next reset.  They do read the targets, the estimators and whether estimates begin anew
  after each control, so these count at once (`Manager.apply_eq`).  Hence a run stays the
  same under a configuration that restates what it finds of the latter
  (`Station.sameRun_apply`), and may change under any other.
-/
import CapacityControl.Proofs.Control.Run

namespace CapacityControl.Control

open Stats

variable {α : Type} [Scalar α]

/-! ## §1. What waits for the next reset. -/

/-- The settings that only a reset reads. -/
structure Deferred (α : Type) where
  intervals : Intervals α
  dataLog : Option String
  smoothingFactor : α

/-- The core with other such settings. -/
def Core.deferring (c : Core α) (d : Deferred α) : Core α :=
  { c with intervals := d.intervals, dataLog := d.dataLog }

/-- The policy with other such settings. -/
def Policy.deferring : Policy α → Deferred α → Policy α
  | .fuzzy c, d => .fuzzy { c with smoothingFactor := d.smoothingFactor }
  | .monitor c, _ => .monitor c

/-- The station with other such settings. -/
def Station.deferring (s : Station α) (d : Deferred α) : Station α :=
  { s with
    manager := { s.manager with
      core := s.manager.core.deferring d
      policy := s.manager.policy.deferring d } }

variable (d : Deferred α)

omit [Scalar α] in
theorem Policy.counters_deferring (p : Policy α) : (p.deferring d).counters = p.counters := by
  cases p with
  | fuzzy c => rfl
  | monitor c => rfl

theorem Core.sampleMetric_deferring (s : Core.Polled α) (m : Metric) :
    sampleMetric ⟨s.core.deferring d, s.testbed, s.warnings⟩ m
      = ⟨(sampleMetric s m).core.deferring d, (sampleMetric s m).testbed,
          (sampleMetric s m).warnings⟩ := by
  unfold sampleMetric
  dsimp only
  split
  · rfl
  · rfl

theorem Core.sampleMetrics_deferring (ms : List Metric) (s : Core.Polled α) :
    ms.foldl sampleMetric ⟨s.core.deferring d, s.testbed, s.warnings⟩
      = ⟨(ms.foldl sampleMetric s).core.deferring d, (ms.foldl sampleMetric s).testbed,
          (ms.foldl sampleMetric s).warnings⟩ := by
  induction ms generalizing s with
  | nil => rfl
  | cons m ms ih =>
    rw [List.foldl_cons, List.foldl_cons, sampleMetric_deferring]
    exact ih (sampleMetric s m)

theorem Core.sample_deferring (c : Core α) (t : Testbed α) (wired : PerMetric Bool) :
    (c.deferring d).sample t wired
      = ⟨(c.sample t wired).core.deferring d, (c.sample t wired).testbed,
          (c.sample t wired).warnings⟩ :=
  sampleMetrics_deferring d _ ⟨c, t, []⟩

theorem Core.endInterval_deferring (c : Core α) :
    (c.deferring d).endInterval = c.endInterval.deferring d := by
  unfold Core.endInterval
  show (if c.resetsEachInterval then _ else _) = _
  split
  · rfl
  · rfl

theorem Policy.sample_deferring (p : Policy α) (core : Core α) (t : Testbed α) :
    (p.deferring d).sample (core.deferring d) t
      = ⟨(p.sample core t).policy.deferring d, (p.sample core t).core.deferring d,
          (p.sample core t).testbed, (p.sample core t).warnings⟩ := by
  cases p with
  | fuzzy c =>
    show Sampled.map fuzzy ((Controller.mk _ _ _ _ _ _).sample _ _) = _
    unfold Controller.sample
    dsimp only
    rw [Core.sample_deferring]
    rfl
  | monitor c =>
    show Sampled.map monitor (c.sample _ _) = _
    unfold Monitor.sample
    rw [Core.sample_deferring]
    rfl

theorem Policy.control_deferring (p : Policy α) (core : Core α) (t : Testbed α)
    (storage : Storage) (stamp : Int) :
    (p.deferring d).control (core.deferring d) t storage stamp
      = { p.control core t storage stamp with
          policy := (p.control core t storage stamp).policy.deferring d
          core := (p.control core t storage stamp).core.deferring d } := by
  cases p with
  | fuzzy c =>
    show Controlled.map fuzzy ((Controller.mk _ _ _ _ _ _).control _ _ _ _) = _
    unfold Controller.control
    rw [Core.endInterval_deferring]
    rfl
  | monitor c =>
    show Controlled.map monitor (c.control _ _ _ _) = _
    unfold Monitor.control
    rw [Core.endInterval_deferring]
    rfl

namespace Station

/-- **What an operation does** does not depend on the deferred settings, and leaves them as they
are. -/
theorem perform_deferring (s : Station α) (stamp : Int) {a : Action α} (ha : a.isOperation = true) :
    (s.deferring d).perform stamp a
      = { s.perform stamp a with station := (s.perform stamp a).station.deferring d } := by
  cases a with
  -- Readings, failures and refusals reach the testbed only.
  | feed items => rfl
  | failMachine index r => rfl
  | failOutput m => rfl
  | refuse index on => rfl
  -- Observers see the counters, which are the same as well.
  | sample =>
    have hsample := s.manager.policy.sample_deferring d s.manager.core s.testbed
    show (s.deferring d).sample = _
    unfold Station.sample Manager.sample deferring
    simp only [hsample, Manager.notices, Policy.counters_deferring, perform, Station.sample,
      Manager.sample]
  | control =>
    have hcontrol := s.manager.policy.control_deferring d s.manager.core s.testbed s.storage stamp
    show (s.deferring d).control stamp = _
    unfold Station.control Manager.control deferring
    simp only [hcontrol, Manager.notices, Policy.counters_deferring, perform, Station.control,
      Manager.control]
  | _ => cases ha

/-! ## §2. Two runs. -/

/-- **What a run answers**: the result of every action, with its warnings and notices. -/
def answers (s : Station α) : List (Int × Action α) →
    List (Except (Error α) (Reply α) × List (Warning α) × List Notice)
  | [] => []
  | (stamp, a) :: run =>
    let p := s.perform stamp a
    (p.result, p.warnings, p.notices) :: answers p.station run

/-- **A run is the same for two stations**: it gives the same answers, and leaves the same
shares, the same files and the same counters behind. -/
structure SameRun (s s' : Station α) (run : List (Int × Action α)) : Prop where
  answers : s'.answers run = s.answers run
  testbed : (s'.after run).testbed = (s.after run).testbed
  storage : (s'.after run).storage = (s.after run).storage
  counters : (s'.after run).manager.policy.counters = (s.after run).manager.policy.counters

theorem run_deferring (s : Station α) {run : List (Int × Action α)}
    (hrun : ∀ x ∈ run, x.2.isOperation = true) :
    (s.deferring d).after run = (s.after run).deferring d
      ∧ (s.deferring d).answers run = s.answers run := by
  induction run generalizing s with
  | nil => exact ⟨rfl, rfl⟩
  | cons x run ih =>
    obtain ⟨stamp, a⟩ := x
    have hstep := s.perform_deferring d stamp (hrun _ List.mem_cons_self)
    obtain ⟨hafter, hanswers⟩ :=
      ih (s.perform stamp a).station fun y hy => hrun y (List.mem_cons_of_mem _ hy)
    constructor
    · show ((s.deferring d).perform stamp a).station.after run = _
      rw [hstep]
      exact hafter
    · unfold answers
      dsimp only
      rw [hstep]
      exact congrArg _ hanswers

/-- **The deferred settings** do not matter in a run of operations. -/
theorem sameRun_deferring (s : Station α) {run : List (Int × Action α)}
    (hrun : ∀ x ∈ run, x.2.isOperation = true) : s.SameRun (s.deferring d) run := by
  obtain ⟨hafter, hanswers⟩ := s.run_deferring d hrun
  refine ⟨hanswers, ?_, ?_, ?_⟩
  · rw [hafter]
    rfl
  · rw [hafter]
    rfl
  · rw [hafter]
    exact Policy.counters_deferring d _

end Station

/-! ## §3. What counts at once. -/

/-- The estimator of a metric after a configuration: that of its target, if it has one. -/
def renewed (target : Option (Target α)) (e : Option (Estimator α)) : Option (Estimator α) :=
  match target with
  | none => e
  | some t => t.estimator.build.toOption

/-- **The core with the part of a configuration that counts at once**: the targets, their
estimators, and whether estimates begin anew after each control. -/
def Core.steered (c : Core α) (config : Config α) : Core α :=
  { c with
    targets := config.targets.map (·.map Target.value)
    estimators := ⟨renewed config.targets.responseTime c.estimators.responseTime,
      renewed config.targets.throughput c.estimators.throughput⟩
    resetsEachInterval := config.resetsEachInterval }

/-- The part of a configuration that waits for the next reset. -/
def Config.deferred (config : Config α) : Deferred α :=
  ⟨⟨ofMilliseconds config.samplingMs, ofMilliseconds config.controlMs⟩, config.dataLog,
    config.smoothingFactor⟩

theorem renewed_build {t : Target α} {e : Estimator α} (h : t.estimator.build = .ok e)
    (before : Option (Estimator α)) : renewed (some t) before = some e := by
  show t.estimator.build.toOption = some e
  rw [h]
  rfl

/-- **A target that is accepted** is set with a new estimator of its kind. -/
theorem Target.inTurn_changes {t : Target α} (ht : t.check = .ok ()) (c : Core α) (m : Metric) :
    inTurn (t.changes m) c = ⟨{ c with
      targets := c.targets.set m (some t.value)
      estimators := c.estimators.set m (renewed (some t) none) }, .ok ()⟩ := by
  obtain ⟨checked, hchecked, ht⟩ := bind_eq_ok_iff.mp ht
  obtain ⟨e, hbuild, _⟩ := bind_eq_ok_iff.mp ht
  obtain ⟨rfl, _⟩ := checkTarget_ok hchecked
  have hvalue : (c.withEstimator m e).withTarget m t.value = .ok { c with
      targets := c.targets.set m (some t.value)
      estimators := c.estimators.set m (some e) } := by
    refine bind_eq_ok_iff.mpr ⟨t.value, hchecked, ?_⟩
    cases m with
    | responseTime => rfl
    | throughput => rfl
  rw [renewed_build (mapError_eq_ok_iff.mp hbuild)]
  calc inTurn (t.changes m) c
      = inTurn [fun c => c.withTarget m t.value] (c.withEstimator m e) :=
        inTurn_cons (map_eq_ok_iff.mpr ⟨e, hbuild, rfl⟩)
    _ = _ := inTurn_cons hvalue

/-- **The targets of a configuration** are set one after the other. -/
theorem Core.inTurn_targets {targets : PerMetric (Option (Target α))}
    (hcheck : ∀ m t, targets.get m = some t → t.check = .ok ()) (c : Core α) :
    inTurn (targets.entries.flatMap fun (m, t) => t.changes m) c.withoutTargets
      = ⟨{ c with
          targets := targets.map (·.map Target.value)
          estimators := ⟨renewed targets.responseTime c.estimators.responseTime,
            renewed targets.throughput c.estimators.throughput⟩ }, .ok ()⟩ := by
  obtain ⟨response, throughput⟩ := targets
  cases response with
  | none =>
    cases throughput with
    | none => rfl
    | some t =>
      have ht := Target.inTurn_changes (hcheck .throughput t rfl)
      exact (inTurn_append (ht _ .throughput)).trans rfl
  | some r =>
    have hr := Target.inTurn_changes (hcheck .responseTime r rfl)
    cases throughput with
    | none => exact (inTurn_append (hr _ .responseTime)).trans rfl
    | some t =>
      have ht := Target.inTurn_changes (hcheck .throughput t rfl)
      exact (inTurn_append (hr _ .responseTime)).trans
        ((inTurn_append (ht _ .throughput)).trans rfl)

/-- A configuration that is accepted has targets that are. -/
theorem Config.check_target {config : Config α} (hcheck : config.check = .ok ()) (m : Metric)
    (t : Target α) (ht : config.targets.get m = some t) : t.check = .ok () := by
  obtain ⟨_, _, hcheck⟩ := bind_eq_ok_iff.mp hcheck
  obtain ⟨_, _, htargets⟩ := bind_eq_ok_iff.mp hcheck
  have hmem : (m, t) ∈ config.targets.entries := by
    refine List.mem_filterMap.mpr ⟨m, ?_, by rw [ht]; rfl⟩
    cases m with
    | responseTime => exact List.mem_cons_self
    | throughput => exact List.mem_cons_of_mem _ List.mem_cons_self
  exact (forM_eq_ok_iff _ _).mp htargets (m, t) hmem

/-- A sampling period that is accepted once is accepted with any other settings. -/
theorem Intervals.withSampling_ok {i j : Intervals α} {ms : α} (h : i.withSampling ms = .ok j)
    (k : Intervals α) : k.withSampling ms = .ok { k with sampling := ofMilliseconds ms } := by
  obtain ⟨checked, hchecked, _⟩ := map_eq_ok_iff.mp h
  cases ensurePositive_ok hchecked
  exact map_eq_ok_iff.mpr ⟨_, hchecked, rfl⟩

/-- A control period that is accepted once is accepted with any other settings. -/
theorem Intervals.withControl_ok {i j : Intervals α} {ms : α} (h : i.withControl ms = .ok j)
    (k : Intervals α) : k.withControl ms = .ok { k with control := ofMilliseconds ms } := by
  obtain ⟨checked, hchecked, _⟩ := map_eq_ok_iff.mp h
  cases ensurePositive_ok hchecked
  exact map_eq_ok_iff.mpr ⟨_, hchecked, rfl⟩

/-- **The periods of a configuration that is accepted** are accepted with any other settings. -/
theorem Config.check_intervals {config : Config α} (hcheck : config.check = .ok ()) :
    (∀ i : Intervals α, i.withSampling config.samplingMs
        = .ok { i with sampling := ofMilliseconds config.samplingMs })
      ∧ ∀ i : Intervals α, i.withControl config.controlMs
        = .ok { i with control := ofMilliseconds config.controlMs } := by
  obtain ⟨_, hintervals, _⟩ := bind_eq_ok_iff.mp hcheck
  obtain ⟨_, hsampling, hcontrol⟩ := bind_eq_ok_iff.mp (mapError_eq_ok_iff.mp hintervals)
  exact ⟨Intervals.withSampling_ok hsampling, Intervals.withControl_ok hcontrol⟩

/-- **The changes of a configuration that is accepted** are all made: it is taken over in its two
parts. -/
theorem Core.inTurn_changes {config : Config α} (hcheck : config.check = .ok ()) (c : Core α) :
    inTurn config.changes c = ⟨(c.steered config).deferring config.deferred, .ok ()⟩ := by
  have htargets := Core.inTurn_targets (Config.check_target hcheck)
  obtain ⟨hsampling, hcontrol⟩ := Config.check_intervals hcheck
  calc inTurn config.changes c
      = inTurn _ { c with intervals := ⟨ofMilliseconds config.samplingMs, c.intervals.control⟩ } :=
        inTurn_cons (map_eq_ok_iff.mpr ⟨_, mapError_eq_ok_iff.mpr (hsampling c.intervals), rfl⟩)
    _ = inTurn _ { c with intervals := config.deferred.intervals } :=
        inTurn_cons (map_eq_ok_iff.mpr ⟨_, mapError_eq_ok_iff.mpr (hcontrol _), rfl⟩)
    _ = _ := inTurn_cons rfl
    _ = _ := inTurn_append (htargets { c with intervals := config.deferred.intervals })

/-- The policy accepts the factor of a configuration that is accepted. -/
theorem Policy.withFactor_eq {config : Config α} (hcheck : config.check = .ok ()) (p : Policy α) :
    p.withFactor config.smoothingFactor = .ok (p.deferring config.deferred) := by
  obtain ⟨_, _, hcheck⟩ := bind_eq_ok_iff.mp hcheck
  obtain ⟨factor, hfactor, _⟩ := bind_eq_ok_iff.mp hcheck
  have hchecked := mapError_eq_ok_iff.mp hfactor
  obtain ⟨rfl, _⟩ := ensureFactor_ok hchecked
  cases p with
  | fuzzy c => exact map_eq_ok_iff.mpr ⟨_, map_eq_ok_iff.mpr ⟨_, hchecked, rfl⟩, rfl⟩
  | monitor c => rfl

omit [Scalar α] in
/-- Changes of the core are made to the core. -/
theorem Manager.inTurn_changingCore (changes : List (Change (Core α) α)) (m : Manager α) :
    inTurn (changes.map changingCore) m
      = ⟨{ m with core := (inTurn changes m.core).state }, (inTurn changes m.core).result⟩ := by
  induction changes generalizing m with
  | nil => rfl
  | cons change changes ih =>
    rw [List.map_cons]
    cases hchange : change m.core with
    | error e =>
      unfold inTurn changingCore
      rw [hchange]
      rfl
    | ok core =>
      have hmanager : changingCore change m = .ok { m with core := core } :=
        map_eq_ok_iff.mpr ⟨core, hchange, rfl⟩
      rw [inTurn_cons hmanager, inTurn_cons hchange, ih]

/-- **A configuration that is accepted** is taken over: the part that counts at once, and the
deferred part. -/
theorem Manager.apply_eq {config : Config α} (hcheck : config.check = .ok ()) (m : Manager α) :
    m.apply config
      = ⟨{ m with
          core := (m.core.steered config).deferring config.deferred
          policy := m.policy.deferring config.deferred }, .ok ()⟩ := by
  have hchecked : config.check.map (fun _ => m) = .ok m := map_eq_ok_iff.mpr ⟨(), hcheck, rfl⟩
  have hcore : inTurn (config.changes.map changingCore) m
      = ⟨{ m with core := (m.core.steered config).deferring config.deferred }, .ok ()⟩ := by
    rw [inTurn_changingCore, Core.inTurn_changes hcheck]
  have hpolicy : changingFactor config.smoothingFactor
        { m with core := (m.core.steered config).deferring config.deferred }
      = .ok { m with
          core := (m.core.steered config).deferring config.deferred
          policy := m.policy.deferring config.deferred } :=
    map_eq_ok_iff.mpr ⟨_, mapError_eq_ok_iff.mpr (Policy.withFactor_eq hcheck _), rfl⟩
  unfold apply
  rw [List.cons_append, inTurn_cons hchecked, inTurn_append hcore, inTurn_cons hpolicy]
  rfl

namespace Station

/-- **Applying a configuration** that is accepted sets the part that counts at once, and the
deferred part. -/
theorem apply_eq {config : Config α} (hcheck : config.check = .ok ()) (s : Station α)
    (stamp : Int) :
    s.perform stamp (.apply config)
      = ((s.withCore (s.manager.core.steered config)).deferring config.deferred).changed := by
  show s.apply config = _
  unfold apply
  rw [Manager.apply_eq hcheck]
  rfl

end Station

/-! ## §4. Configurations that restate. -/

/-- **A configuration restates** what already holds: the targets, the kinds of their estimators,
and whether estimates begin anew after each control. -/
structure Config.Restates (config : Config α) (core : Core α) : Prop where
  targets : config.targets.map (·.map Target.value) = core.targets
  kinds : ∀ m t, config.targets.get m = some t →
    (core.estimators.get m).map Estimator.kind = some t.estimator
  resets : config.resetsEachInterval = core.resetsEachInterval

/-- The estimator of a target whose kind is that of a cleared one, is the cleared one. -/
theorem renewed_eq {t : Target α} (ht : t.check = .ok ()) {e : Option (Estimator α)}
    (hkind : (e.map Estimator.reset).map Estimator.kind = some t.estimator) :
    renewed (some t) (e.map Estimator.reset) = e.map Estimator.reset := by
  obtain ⟨_, _, ht⟩ := bind_eq_ok_iff.mp ht
  obtain ⟨f, hf, _⟩ := bind_eq_ok_iff.mp ht
  have hbuild := mapError_eq_ok_iff.mp hf
  obtain ⟨hfkind, hfreset⟩ := Estimator.kind_build hbuild
  cases e with
  | none => cases hkind
  | some e =>
    -- Both have nothing to remember, so their kind is all there is to them.
    have hsame : f.kind = e.kind := by
      rw [Option.map_some, Option.map_some, Option.some.injEq, Estimator.kind_reset] at hkind
      rw [hfkind, hkind]
    show renewed (some t) _ = some e.reset
    rw [renewed_build hbuild, ← Estimator.reset_eq_of_kind hsame, hfreset]

/-- **A configuration that restates** what it finds after the statistics were cleared changes
nothing of what counts at once. -/
theorem Core.steered_eq {c : Core α} {config : Config α} (hcheck : config.check = .ok ())
    (h : config.Restates c.resetStatistics) :
    c.resetStatistics.steered config = c.resetStatistics := by
  have hrenewed : ∀ m, renewed (config.targets.get m) (c.resetStatistics.estimators.get m)
      = c.resetStatistics.estimators.get m := by
    intro m
    cases ht : config.targets.get m with
    | none => rfl
    | some t =>
      have hkind := h.kinds m t ht
      have hget : c.resetStatistics.estimators.get m
          = (c.estimators.get m).map Estimator.reset := PerMetric.get_map _ _ _
      rw [hget] at hkind ⊢
      exact renewed_eq (Config.check_target hcheck m t ht) hkind
  have hestimators : (⟨renewed config.targets.responseTime
        c.resetStatistics.estimators.responseTime, renewed config.targets.throughput
        c.resetStatistics.estimators.throughput⟩ : PerMetric (Option (Estimator α)))
      = c.resetStatistics.estimators :=
    PerMetric.ext_get fun m => by
      cases m with
      | responseTime => exact hrenewed .responseTime
      | throughput => exact hrenewed .throughput
  unfold steered
  rw [hestimators, h.targets, h.resets]

namespace Station

/-- **Applying a configuration just after a reset.**  It is taken over whenever it is accepted.
The run that follows is that of a station with the targets of the configuration, their
estimators, and its choice whether estimates begin anew; the rest of the configuration does not
matter before the next reset.  So the run is the same as without the configuration if that
restates the targets, the kinds of their estimators, and that choice. -/
theorem sameRun_apply {s : Station α} (stamp : Int)
    (hreset : (s.perform stamp .reset).result = .ok .done) {config : Config α}
    (hcheck : config.check = .ok ()) {run : List (Int × Action α)}
    (hrun : ∀ x ∈ run, x.2.isOperation = true) :
    let start := (s.perform stamp .reset).station
    (start.perform stamp (.apply config)).result = .ok .done
      ∧ SameRun (start.withCore (start.manager.core.steered config))
          (start.perform stamp (.apply config)).station run
      ∧ (config.Restates start.manager.core →
          SameRun start (start.perform stamp (.apply config)).station run) := by
  intro start
  rw [apply_eq hcheck]
  refine ⟨rfl, sameRun_deferring _ _ hrun, fun hrestates => ?_⟩
  have hstart : start.manager.core = s.manager.core.resetStatistics :=
    congrArg (·.manager.core) (reset_ok hreset).2
  rw [hstart] at hrestates
  have hsteered : start.withCore (start.manager.core.steered config) = start := by
    rw [hstart, Core.steered_eq hcheck hrestates, ← hstart]
    rfl
  rw [hsteered]
  exact sameRun_deferring _ _ hrun

/-! ## §5. A trial. -/

/-- A monitor for trials: one machine, a time of one to respond in, and a log. -/
def monitored : Station Extended :=
  (new (.monitor .new) (.new [.new "vm" 1.0])).after
    [(0, .bind), (0, .setTarget .responseTime 1.0), (0, .setDataLog (some "log.csv"))]

/-- Three responses, and two controls after one sample. -/
def monitoredRun : List (Int × Action Extended) :=
  [(0, .feed [.output .responseTime 1.0, .output .responseTime 2.0, .output .responseTime 9.0]),
    (0, .sample), (0, .control), (0, .control)]

/-- A configuration with given targets. -/
def trialConfig (targets : PerMetric (Option (Target Extended))) (resets : Bool) :
    Config Extended :=
  ⟨5.0, 10.0, 0.5, some "next.csv", targets, resets⟩

theorem reset_monitored : (monitored.perform 0 .reset).result = .ok .done :=
  Performed.result_of_isDone (by decide +kernel)

theorem isOperation_monitoredRun : ∀ x ∈ monitoredRun, x.2.isOperation = true := by
  simp [monitoredRun, Action.isOperation]

theorem check_of_isOk {config : Config Extended} (h : config.check.isOk = true) :
    config.check = .ok () := by
  cases hcheck : config.check with
  | ok => rfl
  | error e =>
    rw [hcheck] at h
    cases h

/-- Other periods, another log and another factor do not matter in the run. -/
theorem sameRun_trial :
    SameRun (monitored.perform 0 .reset).station
      ((monitored.perform 0 .reset).station.perform 0
        (.apply (trialConfig ⟨some ⟨1.0, .mean⟩, none⟩ true))).station monitoredRun := by
  have hcheck : (trialConfig ⟨some ⟨1.0, .mean⟩, none⟩ true).check = .ok () :=
    check_of_isOk (by decide +kernel)
  refine (sameRun_apply 0 reset_monitored hcheck isOperation_monitoredRun).2.2 ⟨?_, ?_, ?_⟩
  · decide +kernel
  · intro m t ht
    cases m with
    | responseTime =>
      cases ht
      have hmean : ((monitored.perform 0 .reset).station.manager.core.estimators.get
          .responseTime).map Estimator.probability? = some none := by
        decide +kernel
      obtain ⟨e, he, hnone⟩ := Option.map_eq_some_iff.mp hmean
      rw [he]
      exact congrArg some (Estimator.kind_of_probability? hnone)
    | throughput => cases ht
  · decide +kernel

/-- Another metric, another target, or estimates that go on: each of them changes the run. -/
theorem not_sameRun_trial :
    (monitored.perform 0 .reset).result = .ok .done
      ∧ ∀ config ∈ [trialConfig ⟨none, some ⟨1.0, .mean⟩⟩ true,
          trialConfig ⟨some ⟨2.0, .mean⟩, none⟩ true,
          trialConfig ⟨some ⟨1.0, .mean⟩, none⟩ false],
        config.check = .ok () ∧
        ¬ SameRun (monitored.perform 0 .reset).station
          ((monitored.perform 0 .reset).station.perform 0 (.apply config)).station
          monitoredRun := by
  have hdiffers : ∀ config ∈ [trialConfig ⟨none, some ⟨1.0, .mean⟩⟩ true,
      trialConfig ⟨some ⟨2.0, .mean⟩, none⟩ true,
      trialConfig ⟨some ⟨1.0, .mean⟩, none⟩ false],
      config.check.isOk = true
        ∧ (((monitored.perform 0 .reset).station.perform 0 (.apply config)).station.after
              monitoredRun).storage.read? "log.csv"
            ≠ ((monitored.perform 0 .reset).station.after monitoredRun).storage.read? "log.csv" := by
    decide +kernel
  refine ⟨reset_monitored, fun config hconfig => ?_⟩
  obtain ⟨hok, hlog⟩ := hdiffers config hconfig
  refine ⟨check_of_isOk hok, fun hsame => hlog ?_⟩
  rw [hsame.storage]

end Station

end CapacityControl.Control
