/-
  CapacityControl.Proofs.Control.Outcome
  ──────────────────────────────────────
  WHAT A CONTROL COMES TO, exactly.  In a run of the fuzzy controller a control is
  skipped if and only if an observation is missing, and fails if and only if nothing is
  missing, there are machines, and the error is the single one that no rule covers.  In
  every other case it is applied (`control_outcome_iff`).
-/
import CapacityControl.Proofs.Control.AllOrNothing
import CapacityControl.Proofs.Control.Run
import CapacityControl.Proofs.Surface.Coverage

namespace CapacityControl.Control

open Stats Fuzzy
open Extended (finite)

/-! ## §1. The driving error. -/

section Driving

variable {α : Type} [Scalar α]

namespace Controller

omit [Scalar α] in
theorem missingReading?_eq_none_iff (managed : List (Machine α × PerResource (Channel α))) :
    missingReading? managed = none ↔ ∀ pair ∈ managed, ∀ r, (pair.2.get r).observed ≠ 0 := by
  unfold missingReading?
  rw [List.findSome?_eq_none_iff]
  refine forall₂_congr fun pair _ => ?_
  rw [Option.map_eq_none_iff, List.find?_eq_none]
  constructor
  · intro h r hzero
    refine h r ?_ ?_
    · cases r <;> simp [Resource.all]
    · rw [hzero]
      rfl
  · intro h r _ hzero
    exact h r (beq_iff_eq.mp hzero)

/-- No estimate is missing among the readings if none is missing among the targets. -/
theorem find?_readings_eq_none_iff (core : Core α) :
    core.readings.find? (·.estimate.isNone) = none
      ↔ ∀ entry ∈ core.targets.entries, core.estimate? entry.1 ≠ none := by
  unfold Core.readings
  rw [List.find?_eq_none]
  simp only [List.mem_map, forall_exists_index, and_imp, forall_apply_eq_imp_iff₂,
    Option.isNone_iff_eq_none, Ne]

/-- The error of the last reading is that of the last target. -/
theorem error?_getLast?_readings (core : Core α) :
    core.readings.getLast?.bind TargetReading.error?
      = core.targets.entries.getLast?.bind fun entry =>
        (core.estimate? entry.1).map (entry.1.relativeError entry.2) := by
  unfold Core.readings
  rw [List.getLast?_map]
  cases core.targets.entries.getLast? with
  | none => rfl
  | some entry => rfl

/-- **There is an error to decide from** if no reading and no estimate is missing, and it is
that of the last metric with a target. -/
theorem drivingError_ok_iff (managed : List (Machine α × PerResource (Channel α)))
    (core : Core α) (error : α) :
    drivingError managed core.readings = .ok error
      ↔ missingReading? managed = none
        ∧ (∀ entry ∈ core.targets.entries, core.estimate? entry.1 ≠ none)
        ∧ ∃ m target y, core.targets.entries.getLast? = some (m, target)
          ∧ core.estimate? m = some y ∧ m.relativeError target y = error := by
  unfold drivingError
  rw [← find?_readings_eq_none_iff]
  cases missingReading? managed with
  | some reason =>
    constructor
    · intro h
      cases h
    · rintro ⟨h, _⟩
      cases h
  | none =>
    cases core.readings.find? (·.estimate.isNone) with
    | some reading =>
      constructor
      · intro h
        cases h
      · rintro ⟨_, h, _⟩
        cases h
    | none =>
      -- Nothing is missing; there is an error as soon as there is a last target.
      simp only [error?_getLast?_readings]
      constructor
      · intro h
        cases hbind : core.targets.entries.getLast?.bind fun entry =>
            (core.estimate? entry.1).map (entry.1.relativeError entry.2) with
        | none =>
          rw [hbind] at h
          cases h
        | some e =>
          rw [hbind] at h
          cases h
          obtain ⟨entry, hentry, he⟩ := Option.bind_eq_some_iff.mp hbind
          obtain ⟨y, hy, rfl⟩ := Option.map_eq_some_iff.mp he
          exact ⟨trivial, trivial, entry.1, entry.2, y, hentry, hy, rfl⟩
      · rintro ⟨_, _, m, target, y, hentry, hy, rfl⟩
        rw [hentry, Option.bind_some, hy, Option.map_some]

end Controller

end Driving

/-! ## §2. What a control can find. -/

namespace Station

/-- Some resource of some machine delivered no number since the last control. -/
def Unread {α : Type} [Scalar α] (start : Station α) (run : List (Int × Action α)) : Prop :=
  ∃ i r, i < (start.after run).testbed.machines.length ∧ ¬ start.Delivered run i r

/-- The estimator of some metric with a target has seen nothing. -/
def Unestimated {α : Type} (s : Station α) : Prop :=
  ∃ m target e, (m, target) ∈ s.manager.core.targets.entries
    ∧ s.manager.core.estimators.get m = some e ∧ e.count = 0

/-- There are machines, and the error of the last metric with a target is the one that no rule
covers. -/
def AtHole (s : Station Extended) : Prop :=
  s.testbed.machines ≠ []
    ∧ ∃ m target e y, s.manager.core.targets.entries.getLast? = some (m, target)
      ∧ s.manager.core.estimators.get m = some e ∧ e.estimate? = some y
      ∧ m.relativeError target y = finite (3 / 10)

end Station

/-! ## §3. Errors and residuals are rational. -/

namespace Core

theorem mem_entries {β : Type} {t : PerMetric (Option β)} {m : Metric} {v : β}
    (h : (m, v) ∈ t.entries) : t.get m = some v := by
  unfold PerMetric.entries at h
  obtain ⟨k, _, hk⟩ := List.mem_filterMap.mp h
  obtain ⟨w, hw, heq⟩ := Option.map_eq_some_iff.mp hk
  cases heq
  exact hw

/-- A metric with a target has an estimator; the estimate is missing only before the first
sample, and rational from then on. -/
theorem estimate?_cases {c : Core Extended} (hsound : c.Sound) (hexact : c.Exact) {m : Metric}
    {target : Extended} (hentry : (m, target) ∈ c.targets.entries) :
    ∃ e, c.estimators.get m = some e
      ∧ ((e.count = 0 ∧ c.estimate? m = none)
        ∨ ∃ y, e.count ≠ 0 ∧ e.estimate? = some (finite y) ∧ c.estimate? m = some (finite y)) := by
  have hsome : (c.estimators.get m).isSome :=
    hsound.estimated m (by rw [mem_entries hentry]; rfl)
  obtain ⟨e, he⟩ := Option.isSome_iff_exists.mp hsome
  refine ⟨e, he, ?_⟩
  rcases Nat.eq_zero_or_pos e.count with hzero | hpos
  · exact Or.inl ⟨hzero, estimate?_eq_none he hzero⟩
  · obtain ⟨y, hy⟩ := (hexact m e he).estimate hpos
    exact Or.inr ⟨y, hpos.ne', hy, (estimate?_eq he hpos).trans hy⟩

end Core

/-- Errors relative to a valid target are rational. -/
theorem relativeError_exact (m : Metric) {target : Extended} (htarget : IsTarget target) (y : Rat) :
    ∃ error, m.relativeError target (finite y) = finite error := by
  obtain ⟨t, rfl⟩ := (Extended.isFinite_iff target).mp htarget.1
  have hne : t ≠ 0 := by
    have h := htarget.2
    rw [Extended.zero_eq, Extended.finite_beq] at h
    exact of_decide_eq_false h
  cases m with
  | responseTime =>
    refine ⟨(t - y) / t, ?_⟩
    unfold Metric.relativeError
    simp only [Extended.finite_sub, Extended.finite_div _ _ hne]
  | throughput =>
    refine ⟨(y - t) / t, ?_⟩
    unfold Metric.relativeError
    simp only [Extended.finite_sub, Extended.finite_div _ _ hne]

/-- A machine whose channels have all observed something has rational residuals. -/
theorem Machine.residuals_exact {m : Machine Extended} (hm : m.KeepsShares)
    {cs : PerResource (Channel Extended)} (hcs : ∀ r, (cs.get r).Exact)
    (hseen : ∀ r, (cs.get r).observed ≠ 0) :
    ∃ residuals : PerResource Rat, m.residuals cs = residuals.map finite := by
  have hresource : ∀ r, ∃ q, (cs.get r).residual (m.shares.get r) = finite q := by
    intro r
    obtain ⟨share, hshare, _⟩ := Extended.exists_finite_of_inUnit (hm.inUnit r)
    rw [hshare]
    exact (hcs r).residual (hseen r) share
  obtain ⟨cpu, hcpu⟩ := hresource .cpu
  obtain ⟨memory, hmemory⟩ := hresource .memory
  refine ⟨⟨cpu, memory⟩, ?_⟩
  show PerResource.mk ((cs.get .cpu).residual (m.shares.get .cpu))
    ((cs.get .memory).residual (m.shares.get .memory)) = _
  rw [hcpu, hmemory]
  rfl

/-- Between rationals the surface recommends no numbers at the hole only. -/
theorem surfaceDeltas?_eq_none_iff (residuals : PerResource Rat) (error : Rat) :
    surfaceDeltas? (residuals.map finite) (finite error) = none ↔ error = 3 / 10 := by
  unfold surfaceDeltas?
  rw [respond_finite]
  constructor
  · intro h
    by_contra hne
    simp [delta_finite residuals hne] at h
  · rintro rfl
    simp [delta_hole]

/-! ## §4. The outcome. -/

namespace Station

variable {s : Station Extended} {c : Controller Extended}

/-- In a run the driving error is rational. -/
theorem Running.drivingError_exact (h : s.Running c) (hs : s.Sound) {x : Extended}
    (hx : Controller.drivingError (c.managed s.testbed) s.manager.core.readings = .ok x) :
    ∃ error, x = finite error := by
  obtain ⟨_, _, m, target, y, hentry, hy, rfl⟩ := (Controller.drivingError_ok_iff _ _ _).mp hx
  have hmem := List.mem_of_getLast? hentry
  obtain ⟨e, _, ⟨_, hnone⟩ | ⟨q, _, _, hsome⟩⟩ := Core.estimate?_cases hs.core h.estimator hmem
  · rw [hy] at hnone
    cases hnone
  · cases hy.symm.trans hsome
    exact relativeError_exact m (hs.core.target m target (Core.mem_entries hmem)) q

/-- **There is an error to decide from** if every channel has observed something and every
estimator has seen something: there is always a target. -/
theorem Running.drivingError_defined_iff (h : s.Running c) (hs : s.Sound) :
    (∃ x, Controller.drivingError (c.managed s.testbed) s.manager.core.readings = .ok x)
      ↔ (∀ pair ∈ c.managed s.testbed, ∀ r, (pair.2.get r).observed ≠ 0) ∧ ¬ s.Unestimated := by
  simp only [Controller.drivingError_ok_iff, Controller.missingReading?_eq_none_iff]
  constructor
  · rintro ⟨x, hseen, hestimates, _⟩
    refine ⟨hseen, ?_⟩
    rintro ⟨m, target, e, hentry, he, hcount⟩
    exact hestimates (m, target) hentry (Core.estimate?_eq_none he hcount)
  · rintro ⟨hseen, hestimated⟩
    have hestimates : ∀ m target, (m, target) ∈ s.manager.core.targets.entries →
        ∃ y, s.manager.core.estimate? m = some y := by
      intro m target hentry
      obtain ⟨e, he, ⟨hcount, _⟩ | ⟨y, _, _, hy⟩⟩ := Core.estimate?_cases hs.core h.estimator hentry
      · exact absurd ⟨m, target, e, hentry, he, hcount⟩ hestimated
      · exact ⟨_, hy⟩
    have haimed : s.manager.core.targets.entries ≠ [] := by
      have hempty := h.aimed
      unfold Core.hasTarget at hempty
      rw [Bool.not_eq_true', List.isEmpty_eq_false_iff] at hempty
      exact hempty
    have hlast := List.getLast?_eq_some_getLast haimed
    obtain ⟨y, hy⟩ := hestimates _ _ (List.getLast_mem haimed)
    refine ⟨_, hseen, fun entry hentry => ?_, _, _, y, hlast, hy, rfl⟩
    obtain ⟨z, hz⟩ := hestimates entry.1 entry.2 hentry
    rw [hz]
    exact Option.some_ne_none z

/-- The error is that of the hole exactly if the station is at the hole. -/
theorem Running.atHole_iff (h : s.Running c) (hs : s.Sound) {error : Rat}
    (herror : Controller.drivingError (c.managed s.testbed) s.manager.core.readings
      = .ok (finite error)) :
    s.AtHole ↔ s.testbed.machines ≠ [] ∧ error = 3 / 10 := by
  obtain ⟨_, _, m, target, y, hentry, hy, hvalue⟩ := (Controller.drivingError_ok_iff _ _ _).mp herror
  obtain ⟨e, he, ⟨_, hnone⟩ | ⟨q, _, hestimate, hsome⟩⟩ :=
    Core.estimate?_cases hs.core h.estimator (List.mem_of_getLast? hentry)
  · rw [hy] at hnone
    cases hnone
  · have hy' : y = finite q := Option.some.inj (hy.symm.trans hsome)
    unfold AtHole
    refine and_congr_right fun _ => ?_
    constructor
    · rintro ⟨m', target', e', y', hentry', he', hestimate', hhole⟩
      cases hentry.symm.trans hentry'
      cases he.symm.trans he'
      rw [hestimate] at hestimate'
      cases hestimate'
      rw [← hy', hvalue] at hhole
      exact (Extended.finite_inj _ _).mp hhole
    · rintro rfl
      exact ⟨m, target, e, y, hentry, he, hy' ▸ hestimate, hvalue⟩

/-- **Inference fails** only at the hole, and only if there is a machine to decide for. -/
theorem Running.inferAll_fails_iff (h : s.Running c) (hs : s.Sound)
    (hseen : ∀ pair ∈ c.managed s.testbed, ∀ r, (pair.2.get r).observed ≠ 0) (error : Rat) :
    (∃ x, (inferAll c.engine (finite error) (Controller.residuals (c.managed s.testbed))).result
        = .error x)
      ↔ s.testbed.machines ≠ [] ∧ error = 3 / 10 := by
  have hkeeps := c.keepsShares_managed hs.machines
  -- Each machine alone fails at the hole and nowhere else.
  have halone : ∀ pair ∈ c.managed s.testbed,
      surfaceDeltas? (pair.1.residuals pair.2) (finite error) = none ↔ error = 3 / 10 := by
    intro pair hpair
    obtain ⟨residuals, hresiduals⟩ := Machine.residuals_exact (hkeeps pair hpair)
      (h.channel pair.2 (List.of_mem_zip hpair).2) (hseen pair hpair)
    rw [hresiduals]
    exact surfaceDeltas?_eq_none_iff residuals error
  -- In a run every machine has its channels, so all machines are managed.
  have hsize : (c.managed s.testbed).length = s.testbed.machines.length := by
    unfold Controller.managed
    rw [List.length_zip, h.wired, Nat.min_self]
  rw [inferAll_error_iff (hs.policy c h.policy).restart, Controller.residuals_eq hkeeps]
  simp only [List.mem_map]
  constructor
  · rintro ⟨_, ⟨pair, hpair, rfl⟩, hnone⟩
    refine ⟨fun hempty => ?_, (halone pair hpair).mp hnone⟩
    rw [hempty, List.length_nil, List.length_eq_zero_iff] at hsize
    rw [hsize] at hpair
    cases hpair
  · rintro ⟨hmachines, hhole⟩
    have hne : c.managed s.testbed ≠ [] := by
      intro hempty
      rw [hempty, List.length_nil] at hsize
      exact hmachines (List.eq_nil_of_length_eq_zero hsize.symm)
    obtain ⟨pair, hpair⟩ := List.exists_mem_of_ne_nil _ hne
    exact ⟨_, ⟨pair, hpair, rfl⟩, (halone pair hpair).mpr hhole⟩

/-- Every channel has observed something exactly if nothing is unread. -/
theorem seen_iff {start : Station Extended} {run : List (Int × Action Extended)}
    (h : (start.after run).Running c) (htracks : Tracks c start run) :
    (∀ pair ∈ c.managed (start.after run).testbed, ∀ r, (pair.2.get r).observed ≠ 0)
      ↔ ¬ start.Unread run := by
  constructor
  · rintro hseen ⟨i, r, hi, hdelivered⟩
    have hi' : i < c.channels.length := h.wired ▸ hi
    have hpair : (c.managed (start.after run).testbed)[i]?
        = some ((start.after run).testbed.machines[i], c.channels[i]) := by
      rw [Controller.getElem?_managed, List.getElem?_eq_getElem hi, List.getElem?_eq_getElem hi']
    exact hdelivered ((htracks i _ r (List.getElem?_eq_getElem hi')).mp
      (hseen _ (List.mem_of_getElem? hpair) r))
  · intro hread pair hpair r
    obtain ⟨i, hi⟩ := List.mem_iff_getElem?.mp hpair
    unfold Controller.managed at hi
    obtain ⟨hm, hcs⟩ := List.getElem?_zip_eq_some.mp hi
    rw [htracks i pair.2 r hcs]
    by_contra hdelivered
    exact hread ⟨i, r, (List.getElem?_eq_some_iff.mp hm).1, hdelivered⟩

end Station

/-- **The outcome of a control, exactly.**  In a run that begins with a successful reset of a
reachable station, a control is skipped if and only if a reading or an estimate is missing,
it fails if and only if nothing is missing and the station is at the hole of the rule base,
and it is applied in every other case. -/
theorem control_outcome_iff {s : Station Extended} (hs : s.Reachable) {c : Controller Extended}
    (hc : s.manager.policy = .fuzzy c) (stamp : Int)
    (hreset : (s.perform stamp .reset).result = .ok .done) {run : List (Int × Action Extended)}
    (hrun : ∀ x ∈ run, x.2.isOperation = true) (now : Int) :
    let start := (s.perform stamp .reset).station
    let t := start.after run
    let missing := start.Unread run ∨ t.Unestimated
    ∃ outcome, (t.perform now .control).result = .ok (.controlled outcome)
      ∧ ((∃ reason, outcome = .skipped reason) ↔ missing)
      ∧ ((∃ cause, outcome = .failed cause) ↔ ¬ missing ∧ t.AtHole)
      ∧ (outcome = .applied ↔ ¬ missing ∧ ¬ t.AtHole) := by
  intro start t missing
  obtain ⟨c₀, hstart, hnew⟩ := Station.running_reset hs.sound hc stamp hreset
  obtain ⟨d, hd, htracks⟩ := Station.running_tracks hstart hnew hrun
  have hsound : t.Sound := ((hs.perform stamp .reset).after run).sound
  have hseen := Station.seen_iff hd htracks
  have hdefined := hd.drivingError_defined_iff hsound
  have hmissing : missing ↔ ¬ ∃ x, Controller.drivingError (d.managed t.testbed)
      t.manager.core.readings = .ok x := by
    rw [hdefined, hseen]
    tauto
  have hresult : (t.perform now .control).result
      = .ok (.controlled (d.decide t.testbed t.manager.core.readings).outcome) := by
    show Except.ok (Reply.controlled (t.manager.policy.control _ _ _ _).outcome) = _
    rw [hd.policy]
    rfl
  refine ⟨_, hresult, ?_⟩
  rw [hmissing, not_not]
  -- A control is skipped if the error is undefined; otherwise inference decides the outcome.
  rcases d.decide_cases t.testbed t.manager.core.readings with
    ⟨reason, hdriving, hdecide⟩ | ⟨x, hdriving, hcases⟩
  · have hnone : ¬ ∃ x, Controller.drivingError (d.managed t.testbed) t.manager.core.readings
        = .ok x := by
      rintro ⟨x, hx⟩
      rw [hdriving] at hx
      cases hx
    rw [hdecide]
    simp [hnone]
  · have hsome : ∃ x, Controller.drivingError (d.managed t.testbed) t.manager.core.readings
        = .ok x := ⟨x, hdriving⟩
    obtain ⟨error, rfl⟩ := hd.drivingError_exact hsound hdriving
    have hhole := hd.atHole_iff hsound hdriving
    have hfails := hd.inferAll_fails_iff hsound (hdefined.mp hsome).1 error
    rcases hcases with ⟨e, hinfer, hdecide⟩ | ⟨deltas, hinfer, hdecide⟩
    · have hat : t.AtHole := hhole.mpr (hfails.mp ⟨e, hinfer⟩)
      rw [hdecide]
      simp [hsome, hat]
    · have hnot : ¬ t.AtHole := by
        intro hat
        obtain ⟨e, he⟩ := hfails.mpr (hhole.mp hat)
        rw [hinfer] at he
        cases he
      rw [hdecide]
      simp [hsome, hnot]

/-- A trial with a response three tenths faster than required leads to the hole. -/
theorem control_fails_trial :
    (Station.trial.perform 0 .reset).result = .ok .done
      ∧ (∀ x ∈ Station.trialRun 0.7, x.2.isOperation = true)
      ∧ (Station.tried 0.7).AtHole
      ∧ ∃ cause, ((Station.tried 0.7).perform 0 .control).result
        = .ok (.controlled (.failed cause)) := by
  have hreset : (Station.trial.perform 0 .reset).result = .ok .done :=
    Performed.result_of_isDone (by decide +kernel)
  have hrun : ∀ x ∈ Station.trialRun 0.7, x.2.isOperation = true := by
    simp [Station.trialRun, Action.isOperation]
  obtain ⟨cause, hfailed⟩ : ∃ cause, ((Station.tried 0.7).perform 0 .control).result
      = .ok (.controlled (.failed cause)) :=
    Performed.result_of_isFailed (by decide +kernel)
  obtain ⟨c, hc⟩ := Policy.exists_fuzzy (p := Station.trial.manager.policy) (by decide +kernel)
  obtain ⟨outcome, hresult, _, hfails, _⟩ :=
    control_outcome_iff Station.reachable_trial hc 0 hreset hrun 0
  change ((Station.tried 0.7).perform 0 .control).result = _ at hresult
  cases hfailed.symm.trans hresult
  exact ⟨hreset, hrun, (hfails.mp ⟨cause, rfl⟩).2, cause, hresult⟩

end CapacityControl.Control
