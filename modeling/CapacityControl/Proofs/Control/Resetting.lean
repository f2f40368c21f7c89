/-
  CapacityControl.Proofs.Control.Resetting
  ────────────────────────────────────────
  RESETS THAT FAIL.  A reset goes in stages, and nothing that was done before a failure is
  undone.  So only without an application is nothing changed; the error of every other failure
  tells how far the reset came (`Station.resetting_fails`).
-/
import CapacityControl.Proofs.Control.Applying
import CapacityControl.Proofs.Control.Logging

namespace CapacityControl.Control

open Log

variable {α : Type} [Scalar α]

/-! ## §1. What a failed reset leaves behind. -/

namespace Station

/-- The station with cleared statistics. -/
def forgotten (s : Station α) : Station α := s.withCore s.manager.core.resetStatistics

/-- The station with the sensors of the metrics that have a target. -/
def rewired (s : Station α) : Station α :=
  { s with manager := { s.manager with policy := s.manager.policy.rewired s.manager.core } }

/-- **What a failed reset leaves behind**, by its error. -/
inductive LeftBy (s : Station α) (stamp : Int) : Error α → Station α → Prop
  /-- Without an application nothing was done. -/
  | noApplication : LeftBy s stamp (.configuration .noApplication) s
  /-- Without a target, or without its sensor, only the statistics were cleared. -/
  | noTarget : LeftBy s stamp (.configuration .noTarget) s.forgotten
  | noMetricSensor (m : Metric) : LeftBy s stamp (.configuration (.noMetricSensor m)) s.forgotten
  /-- If a machine lacks a sensor, those of the application were found. -/
  | noResourceSensor (machine : String) (r : Resource) :
    LeftBy s stamp (.configuration (.noResourceSensor machine r)) s.forgotten.rewired
  /-- If the log cannot be created, the run has begun without one. -/
  | noLog {path : String} (hpath : s.manager.core.dataLog = some path) (fault : FileFault)
      (hbegun : ((s.perform stamp (.setDataLog none)).station.perform stamp .reset).result
        = .ok .done) :
    LeftBy s stamp (.dataLog path (.file fault))
      (s.after [(stamp, .setDataLog none), (stamp, .reset), (stamp, .setDataLog (some path))])

/-- A reset at an obstacle. -/
theorem leftBy_obstacle {s : Station α} (stamp : Int) {fault : WiringFault}
    (h : s.manager.policy.obstacle? s.manager.core.resetStatistics s.testbed = some fault) :
    s.LeftBy stamp (.configuration fault)
      { s with manager := { s.manager with
          core := s.manager.core.resetStatistics
          policy := s.manager.policy.haltedAt s.manager.core.resetStatistics fault } } := by
  rcases Policy.obstacle?_some h with rfl | ⟨m, rfl⟩ | ⟨machine, r, rfl⟩
  · exact .noTarget
  · exact .noMetricSensor m
  · exact .noResourceSensor machine r

/-- A reset whose log cannot be created. -/
theorem leftBy_noLog {s : Station α} (stamp : Int) {e : Error α}
    (hbound : s.manager.core.bound = true) (hwired : s.obstacle? = none)
    (h : s.reopened.result = .error e) : s.LeftBy stamp e s.reset.station := by
  obtain ⟨path, fault, hpath, rfl, hreopen⟩ := reopen_error h
  obtain ⟨hstation, _⟩ := reset_begins hbound hwired
  -- Without a path the same sensors are found, and all that is left out is the log.
  obtain ⟨hquiet, hquietResult⟩ :=
    reset_begins (s := s.withCore { s.manager.core with dataLog := none }) hbound hwired
  have hleft : s.reset.station
      = s.after [(stamp, .setDataLog none), (stamp, .reset), (stamp, .setDataLog (some path))] := by
    show _ = (s.withCore { s.manager.core with dataLog := none }).reset.station.withCore
      { (s.withCore { s.manager.core with dataLog := none }).reset.station.manager.core with
        dataLog := some path }
    rw [hstation, hquiet, ← hpath]
    unfold reopened
    rw [hreopen]
    rfl
  rw [hleft]
  exact .noLog hpath fault hquietResult

/-- A reset that fails notifies nobody. -/
theorem notices_reset {s : Station α} {e : Error α} (h : s.reset.result = .error e) :
    s.reset.notices = [] := by
  rw [notices_reset_eq, h]

/-- **A reset that fails** notifies nobody, and its error tells what it leaves behind. -/
theorem resetting_fails {s : Station α} {stamp : Int} {e : Error α}
    (h : (s.perform stamp .reset).result = .error e) :
    (s.perform stamp .reset).notices = []
      ∧ s.LeftBy stamp e (s.perform stamp .reset).station := by
  change s.reset.result = .error e at h
  show s.reset.notices = [] ∧ s.LeftBy stamp e s.reset.station
  refine ⟨notices_reset h, ?_⟩
  rcases s.reset_cases with ⟨hstation, hresult⟩ | ⟨fault, hobstacle, hstation, hresult⟩
    | ⟨hbound, hobstacle, hstation, hresult⟩
  · cases hresult.symm.trans h
    rw [hstation]
    exact .noApplication
  · cases hresult.symm.trans h
    rw [hstation]
    exact leftBy_obstacle stamp hobstacle
  · -- All but the log was found, so it is the log that failed.
    cases hlog : s.reopened.result with
    | ok =>
      rw [hlog] at hresult
      cases hresult.symm.trans h
    | error e' =>
      rw [hlog] at hresult
      cases hresult.symm.trans h
      exact leftBy_noLog stamp hbound hobstacle hlog

/-! ## §2. Trials. -/

/-- The trial in a run, with an observer, and then with a log in a directory that does not
exist. -/
def misplaced : Station Extended :=
  (tried 0.5).after [(0, .observe ⟨.reset, "begun"⟩), (0, .setDataLog (some "missing/log.csv"))]

/-- The trial in a run, and then without a target. -/
def aimless : Station Extended := (tried 0.5).after [(0, .clearTargets)]

omit [Scalar α] in
theorem exists_error_of_isOk {r : Except (Error α) (Reply α)} (h : r.isOk = false) :
    ∃ e, r = .error e := by
  cases r with
  | ok reply => cases h
  | error e => exact ⟨e, rfl⟩

/-- Both resets fail, and nobody hears of them. -/
theorem resetting_fails_trial :
    (∃ e, (misplaced.perform 0 .reset).result = .error e
        ∧ (misplaced.perform 0 .reset).notices = []
        ∧ misplaced.LeftBy 0 e (misplaced.perform 0 .reset).station)
      ∧ ∃ e, (aimless.perform 0 .reset).result = .error e
        ∧ (aimless.perform 0 .reset).notices = []
        ∧ aimless.LeftBy 0 e (aimless.perform 0 .reset).station := by
  obtain ⟨e, he⟩ := exists_error_of_isOk (r := (misplaced.perform 0 .reset).result)
    (by decide +kernel)
  obtain ⟨e', he'⟩ := exists_error_of_isOk (r := (aimless.perform 0 .reset).result)
    (by decide +kernel)
  exact ⟨⟨e, he, resetting_fails he⟩, e', he', resetting_fails he'⟩

/-- The reset without a log loses the run: the next control is skipped, where it was to be
applied.  The one without a target loses the estimate. -/
theorem not_kept_trial :
    misplaced.Reachable ∧ aimless.Reachable
      ∧ (misplaced.perform 0 .reset).result.isOk = false
      ∧ ¬ misplaced.SameRun (misplaced.perform 0 .reset).station [(0, .control)]
      ∧ (aimless.perform 0 .reset).result.isOk = false
      ∧ aimless.manager.core.estimate? .responseTime = some 0.5
      ∧ (aimless.perform 0 .reset).station.manager.core.estimate? .responseTime = none := by
  refine ⟨(reachable_tried 0.5).after _, (reachable_tried 0.5).after _, by decide +kernel,
    fun hsame => ?_, by decide +kernel, by decide +kernel, by decide +kernel⟩
  -- A run that is kept counts the same outcomes, and these differ.
  have hcounters : ((misplaced.perform 0 .reset).station.after
      [(0, .control)]).manager.policy.counters
        ≠ (misplaced.after [(0, .control)]).manager.policy.counters := by
    decide +kernel
  exact hcounters hsame.counters

end Station

end CapacityControl.Control
