/-
  CapacityControl.Proofs.Control.Forgetting
  ─────────────────────────────────────────
  A RESET ERASES HISTORY.  Two managers with the same settings, over testbeds in the same
  state, may have any pasts; once a reset has succeeded on both, they are twins, so all that
  follows is the same on both (`Station.reset_erases_history`).
-/
import CapacityControl.Proofs.Control.Twins

namespace CapacityControl

/-! ## §1. Smoothers of one kind. -/

namespace Stats

variable {α : Type}

/-- How a smoother smooths. -/
inductive SmootherKind (α : Type) where
  | last
  | single (factor : α)
  | trend (levelFactor trendFactor : α)
  | double (factor : α)

namespace Smoother

/-- The smoother apart from what it has seen. -/
def kind : Smoother α → SmootherKind α
  | last _ => .last
  | single s => .single s.factor
  | trend s => .trend s.levelFactor s.trendFactor
  | double s => .double s.factor

/-- Smoothers of one kind are the same once they have forgotten every sample. -/
theorem reset_eq_of_kind {s t : Smoother α} (h : s.kind = t.kind) : s.reset = t.reset := by
  cases s with
  | last level =>
    cases t with
    | last level' => rfl
    | _ => cases h
  | single state =>
    cases t with
    | single state' =>
      obtain ⟨factor, level⟩ := state
      cases h
      rfl
    | _ => cases h
  | trend state =>
    cases t with
    | trend state' =>
      obtain ⟨levelFactor, trendFactor, seen⟩ := state
      cases h
      rfl
    | _ => cases h
  | double state =>
    cases t with
    | double state' =>
      obtain ⟨factor, stages⟩ := state
      cases h
      rfl
    | _ => cases h

end Smoother

end Stats

namespace Control

open Stats Log

variable {α : Type} [Scalar α]

/-! ## §2. Histories. -/

namespace Station

/-- **Two managers have the same settings**, over testbeds in the same state: the same policy with
the same smoothing factor, the same targets, estimators and smoothers of the same kinds, and the
same log. -/
structure SameSetup (s s' : Station α) : Prop where
  factor : s'.manager.policy.smoothingFactor? = s.manager.policy.smoothingFactor?
  targets : s'.manager.core.targets = s.manager.core.targets
  estimators : ∀ m, (s'.manager.core.estimators.get m).map Estimator.kind
    = (s.manager.core.estimators.get m).map Estimator.kind
  smoothers : ∀ m, (s'.manager.core.smoothers.get m).map Smoother.kind
    = (s.manager.core.smoothers.get m).map Smoother.kind
  resets : s'.manager.core.resetsEachInterval = s.manager.core.resetsEachInterval
  dataLog : s'.manager.core.dataLog = s.manager.core.dataLog
  testbed : s'.testbed = s.testbed

/-- **Two stations show the same**: the counters, what is known of the metrics, the shares and all
else of the testbed, and the log but for its times. -/
structure SameView (s s' : Station α) : Prop where
  counters : s'.manager.policy.counters = s.manager.policy.counters
  readings : s'.manager.core.readings = s.manager.core.readings
  estimators : s'.manager.core.estimators = s.manager.core.estimators
  smoothers : s'.manager.core.smoothers = s.manager.core.smoothers
  testbed : s'.testbed = s.testbed
  log : ∀ path, s.manager.core.dataLog = some path → ∃ columns rows rows',
    s.storage.read? path = some (logText (α := α) columns rows)
      ∧ s'.storage.read? path = some (logText (α := α) columns rows')
      ∧ rows'.map Prod.snd = rows.map Prod.snd

/-- Twins show the same. -/
theorem Twin.sameView {s s' : Station α} (h : Twin s s') : s.SameView s' := by
  obtain ⟨d, _, hcore⟩ := h.core
  refine ⟨?_, ?_, ?_, ?_, h.testbed, fun path hpath => ?_⟩
  · rw [← Policy.counters_unlogged, h.policy, Policy.counters_unlogged]
  · rw [hcore]
    rfl
  · rw [hcore]
    rfl
  · rw [hcore]
    rfl
  · obtain ⟨columns, rows, rows', hlogs, hlogs', hrows⟩ := h.logs path hpath
    exact ⟨columns, rows, rows', hlogs.read, hlogs'.read, hrows⟩

end Station

/-- Two options that agree in a kind agree in all that the kind decides. -/
theorem map_eq_of_kind {β κ : Type} {kind : β → κ} {f : β → β}
    (hkind : ∀ a b, kind a = kind b → f a = f b) {o o' : Option β}
    (h : o'.map kind = o.map kind) : o'.map f = o.map f := by
  cases o with
  | none => rw [Option.map_eq_none_iff.mp h]
  | some a =>
    obtain ⟨b, rfl, hb⟩ := Option.map_eq_some_iff.mp h
    exact congrArg some (hkind b a hb)

/-- **Cleared statistics** are the same if the settings are, up to what a run does not read. -/
theorem Core.resetStatistics_deferring {c c' : Core α} (hbound : c'.bound = c.bound)
    (htargets : c'.targets = c.targets)
    (hestimators : ∀ m, (c'.estimators.get m).map Estimator.kind
      = (c.estimators.get m).map Estimator.kind)
    (hsmoothers : ∀ m, (c'.smoothers.get m).map Smoother.kind
      = (c.smoothers.get m).map Smoother.kind)
    (hresets : c'.resetsEachInterval = c.resetsEachInterval) :
    c'.resetStatistics = c.resetStatistics.deferring ⟨c'.intervals, c'.dataLog, Scalar.nan⟩ := by
  have hcleared : c'.estimators.map (·.map Estimator.reset)
      = c.estimators.map (·.map Estimator.reset) := by
    refine PerMetric.ext_get fun m => ?_
    rw [PerMetric.get_map, PerMetric.get_map]
    exact map_eq_of_kind (fun _ _ => Estimator.reset_eq_of_kind) (hestimators m)
  have hsmoothed : c'.smoothers.map (·.map Smoother.reset)
      = c.smoothers.map (·.map Smoother.reset) := by
    refine PerMetric.ext_get fun m => ?_
    rw [PerMetric.get_map, PerMetric.get_map]
    exact map_eq_of_kind (fun _ _ => Smoother.reset_eq_of_kind) (hsmoothers m)
  unfold resetStatistics deferring
  rw [hbound, htargets, hcleared, hsmoothed, hresets]

/-- Sound policies with the same factor begin a run alike: the engine of both is the control
surface again. -/
theorem Policy.begun_eq {p p' : Policy α} (hp : p.Sound) (hp' : p'.Sound)
    (hfactor : p'.smoothingFactor? = p.smoothingFactor?) (core : Core α) (t : Testbed α) :
    p'.begun core t none = p.begun core t none := by
  cases p with
  | fuzzy c =>
    cases p' with
    | monitor c' => cases hfactor
    | fuzzy c' =>
      have hsame : c'.smoothingFactor = c.smoothingFactor := Option.some.inj hfactor
      unfold begun
      dsimp only
      -- All that is left of the old controllers is the factor and the restarted engine.
      rw [hsame, (hp c rfl).restart, (hp' c' rfl).restart]
  | monitor c =>
    cases p' with
    | fuzzy c' => cases hfactor
    | monitor c' => rfl

namespace Station

variable [OrderedScalar α]

/-- **A reset that succeeds erases history.**  Two managers with the same settings, over testbeds
in the same state, may have come there in any way.  If a reset succeeds on both, then every
further run of operations and resets, at any times, is answered alike and leaves the same to be
seen. -/
theorem reset_erases_history {s s' : Station α} (hs : s.Reachable) (hs' : s'.Reachable)
    (hsetup : s.SameSetup s') {stamp stamp' : Int}
    (hreset : (s.perform stamp .reset).result = .ok .done)
    (hreset' : (s'.perform stamp' .reset).result = .ok .done) {run run' : List (Int × Action α)}
    (hactions : run'.map Prod.snd = run.map Prod.snd)
    (hrun : ∀ x ∈ run, x.2.isOperation = true ∨ x.2 = .reset) :
    let start := (s.perform stamp .reset).station
    let start' := (s'.perform stamp' .reset).station
    start'.replies run' = start.replies run ∧ (start.after run).SameView (start'.after run') := by
  obtain ⟨hopen, hstation⟩ := reset_ok hreset
  obtain ⟨hopen', hstation'⟩ := reset_ok hreset'
  obtain ⟨hbound, _⟩ := reset_found hreset
  obtain ⟨hbound', _⟩ := reset_found hreset'
  -- What was observed before is in the statistics, and those are cleared.
  have hcore := Core.resetStatistics_deferring (hbound'.trans hbound.symm) hsetup.targets
    hsetup.estimators hsetup.smoothers hsetup.resets
  have htwin : Twin s.reset.station s'.reset.station := by
    rw [hstation, hstation']
    exact twin_beginning hbound ⟨_, hsetup.dataLog, hcore⟩
      (Policy.begun_eq hs.sound.policy hs'.sound.policy hsetup.factor) hsetup.testbed hopen hopen'
  obtain ⟨hafter, hreplies⟩ := htwin.run hactions hrun
  exact ⟨hreplies, hafter.sameView⟩

end Station

/-! ## §3. A trial. -/

deriving instance DecidableEq for Reading, Sensor, Machine, Testbed

deriving instance DecidableEq for EstimatorKind

deriving instance DecidableEq for SmootherKind

namespace Station

/-- The logging trial after a run in which inference has failed. -/
def experienced : Station Extended :=
  loggingTrial.after ((0, .reset) :: trialRun 0.7 ++ [(5, .control)])

/-- A run that goes on after another reset, at times counted from a given one. -/
def renewedRun (time : Int) : List (Int × Action Extended) :=
  trialRun 0.5 ++ [(time, .control), (time + 1, .reset), (time + 2, .control)]

/-- In the trial the failed control is forgotten, as if it had never been. -/
theorem reset_erases_trial :
    experienced.manager.policy.counters.failures = 1
      ∧ loggingTrial.manager.policy.counters.failures = 0
      ∧ let start := (loggingTrial.perform 0 .reset).station
        let start' := (experienced.perform 6 .reset).station
        start'.replies (renewedRun 7) = start.replies (renewedRun 1)
          ∧ (start.after (renewedRun 1)).SameView (start'.after (renewedRun 7)) := by
  have hsetup : loggingTrial.SameSetup experienced := by
    refine ⟨by decide +kernel, by decide +kernel, fun m => ?_, fun m => ?_, by decide +kernel,
      by decide +kernel, by decide +kernel⟩
    · cases m <;> decide +kernel
    · cases m <;> decide +kernel
  have hreset : (experienced.perform 6 .reset).result = .ok .done :=
    Performed.result_of_isDone (by decide +kernel)
  have hrun : ∀ x ∈ renewedRun 1, x.2.isOperation = true ∨ x.2 = .reset := by
    simp [renewedRun, trialRun, Action.isOperation]
  exact ⟨by decide +kernel, by decide +kernel,
    reset_erases_history (reachable_trial.after _) ((reachable_trial.after _).after _) hsetup
      reset_loggingTrial hreset rfl hrun⟩

end Station

end Control

end CapacityControl
