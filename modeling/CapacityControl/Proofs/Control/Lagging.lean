/-
  CapacityControl.Proofs.Control.Lagging
  ──────────────────────────────────────
  AN APPLICATION THAT LAGS BEHIND keeps its capacity.  The relative error has the sign of
  doing well as long as the target is positive; a negative error lets the surface recommend
  no change downwards, and a share follows its change in that direction or stays.  So an
  applied control takes nothing from an application that misses a positive target
  (`Station.control_spares_lagging`).  Dividing by a negative target turns the sign over:
  there the application that misses its target counts as one with headroom
  (`Station.not_spared_trial`).
-/
import CapacityControl.Proofs.Control.Outcome
import CapacityControl.Proofs.Surface.Direction

namespace CapacityControl

open Extended (finite)

/-! ## §1. The sign of the relative error. -/

namespace Metric

/-- The estimate is on the bad side of the target. -/
def Misses {α : Type} [LT α] : Metric → α → α → Prop
  | responseTime, target, estimate => target < estimate
  | throughput, target, estimate => estimate < target

/-- The estimate is on the good side of the target. -/
def Beats {α : Type} [LT α] : Metric → α → α → Prop
  | responseTime, target, estimate => estimate < target
  | throughput, target, estimate => target < estimate

/-- Between rationals the error is the rational one. -/
theorem relativeError_finite (m : Metric) {target : Rat} (htarget : target ≠ 0) (y : Rat) :
    m.relativeError (finite target) (finite y)
      = finite (match m with
        | responseTime => (target - y) / target
        | throughput => (y - target) / target) := by
  cases m with
  | responseTime =>
    unfold relativeError
    simp only [Extended.finite_sub, Extended.finite_div _ _ htarget]
  | throughput =>
    unfold relativeError
    simp only [Extended.finite_sub, Extended.finite_div _ _ htarget]

/-- An error that is a number was measured from a number. -/
theorem estimate_exact {m : Metric} {target error : Rat} {y : Extended}
    (h : m.relativeError (finite target) y = finite error) : ∃ q, y = finite q := by
  cases y with
  | finite q => exact ⟨q, rfl⟩
  | infinite negative =>
    cases m with
    | responseTime => cases h
    | throughput => cases h
  | nan =>
    cases m with
    | responseTime => cases h
    | throughput => cases h

/-- **Missing a positive target** is a negative error. -/
theorem error_neg_of_misses {m : Metric} {target y error : Rat} (htarget : 0 < target)
    (hmisses : m.Misses (finite target) (finite y))
    (h : m.relativeError (finite target) (finite y) = finite error) : error < 0 := by
  rw [relativeError_finite m htarget.ne', Extended.finite_inj] at h
  cases m with
  | responseTime =>
    have hlate : target < y := (Extended.finite_lt _ _).mp hmisses
    rw [← h]
    exact div_neg_of_neg_of_pos (sub_neg.mpr hlate) htarget
  | throughput =>
    have hfew : y < target := (Extended.finite_lt _ _).mp hmisses
    rw [← h]
    exact div_neg_of_neg_of_pos (sub_neg.mpr hfew) htarget

/-- A negative target turns the sign over: a negative error is that of beating it. -/
theorem error_neg_of_beats {m : Metric} {target y error : Rat} (htarget : target < 0)
    (hbeats : m.Beats (finite target) (finite y))
    (h : m.relativeError (finite target) (finite y) = finite error) : error < 0 := by
  rw [relativeError_finite m htarget.ne, Extended.finite_inj] at h
  cases m with
  | responseTime =>
    have hearly : y < target := (Extended.finite_lt _ _).mp hbeats
    rw [← h]
    exact div_neg_of_pos_of_neg (sub_pos.mpr hearly) htarget
  | throughput =>
    have hmany : target < y := (Extended.finite_lt _ _).mp hbeats
    rw [← h]
    exact div_neg_of_pos_of_neg (sub_pos.mpr hmany) htarget

end Metric

namespace Control

open Fuzzy

/-! ## §2. The sign of the changes. -/

/-- The surface answers numbers only. -/
theorem respond_exact {residuals : PerResource Extended} {error : Extended}
    {engine : Engine Extended} (h : respond surface residuals error = .ok engine) :
    ∃ (rs : PerResource Rat) (e : Rat), residuals = rs.map finite ∧ error = finite e := by
  rw [respond_eq] at h
  cases hfind : (fedInputs residuals error).find? (!·.isSet) with
  | some v =>
    rw [hfind] at h
    cases h
  | none =>
    simp only [List.find?_eq_none, fedInputs, Input.isSet, List.mem_cons, List.not_mem_nil,
      or_false, forall_eq_or_imp, forall_eq, Bool.not_eq_true', Bool.not_eq_false] at hfind
    obtain ⟨hcpu, hmemory, herror⟩ := hfind
    obtain ⟨cpu, hcpu⟩ := (Extended.isFinite_iff _).mp hcpu
    obtain ⟨memory, hmemory⟩ := (Extended.isFinite_iff _).mp hmemory
    obtain ⟨e, he⟩ := (Extended.isFinite_iff _).mp herror
    refine ⟨⟨cpu, memory⟩, e, ?_, he⟩
    show residuals = ⟨finite cpu, finite memory⟩
    rw [← hcpu, ← hmemory]

/-- **What the surface recommends** is the change of each residual, away from the hole. -/
theorem surfaceDeltas?_exact {residuals deltas : PerResource Extended} {error : Extended}
    (h : surfaceDeltas? residuals error = some deltas) :
    ∃ (rs : PerResource Rat) (e : Rat), residuals = rs.map finite ∧ error = finite e ∧ e ≠ 3 / 10
      ∧ ∀ r, deltas.get r = finite (change (rs.get r) e) := by
  unfold surfaceDeltas? at h
  cases hrespond : respond surface residuals error with
  | error x =>
    rw [hrespond] at h
    cases h
  | ok engine =>
    obtain ⟨rs, e, rfl, rfl⟩ := respond_exact hrespond
    rw [hrespond, eq_answered hrespond] at h
    by_cases hhole : e = 3 / 10
    · -- At the hole no change is a number.
      subst hhole
      simp only [delta_hole] at h
      cases h
    · refine ⟨rs, e, rfl, rfl, hhole, fun r => ?_⟩
      simp only [delta_finite rs hhole] at h
      cases h
      cases r with
      | cpu => rfl
      | memory => rfl

/-! ## §3. Shares follow their changes. -/

/-- What is sent is the sum of share and change, limited to `[0, 1]`. -/
theorem nextShare_exact {old delta : Rat} {share : Extended}
    (h : nextShare (finite old) (finite delta) = some share) :
    share = finite (max 0 (min (old + delta) 1)) := by
  unfold nextShare at h
  rw [Extended.finite_add, Extended.clampUnit_finite] at h
  dsimp only at h
  split_ifs at h
  cases h
  rfl

/-- **A change that is not downwards** makes no share smaller. -/
theorem Machine.le_shareAfter {m : Machine Extended} (hm : m.KeepsShares) (r : Resource)
    {delta : Rat} (hdelta : 0 ≤ delta) : m.shares.get r ≤ m.shareAfter r (finite delta) := by
  obtain ⟨share, hshare, _, hone⟩ := Extended.exists_finite_of_inUnit (hm.inUnit r)
  have hstays : finite share ≤ finite share := (Extended.finite_le _ _).mpr (le_refl share)
  unfold shareAfter
  rw [hshare]
  split_ifs
  · exact hstays
  · cases hnext : nextShare (finite share) (finite delta) with
    | none => exact hstays
    | some next =>
      rw [nextShare_exact hnext]
      -- The share is at most one, so limiting the sum does not bring it below the share.
      have hsum : share ≤ min (share + delta) 1 := le_min (by linarith) hone
      exact (Extended.finite_le _ _).mpr (hsum.trans (le_max_right 0 _))

/-! ## §4. Controls. -/

/-- **No share is smaller** afterwards, of any machine. -/
def Testbed.Spares {α : Type} [LE α] (before after : Testbed α) : Prop :=
  ∀ (i : Nat) (m : Machine α), before.machines[i]? = some m →
    ∃ m', after.machines[i]? = some m' ∧ ∀ r, m.shares.get r ≤ m'.shares.get r

theorem Testbed.Spares.shares {α : Type} [LE α] {before after : Testbed α}
    (h : before.Spares after) {i : Nat} {p p' : PerResource α} (hp : before.shares[i]? = some p)
    (hp' : after.shares[i]? = some p') (r : Resource) : p.get r ≤ p'.get r := by
  unfold Testbed.shares at hp hp'
  rw [List.getElem?_map, Option.map_eq_some_iff] at hp hp'
  obtain ⟨m, hm, rfl⟩ := hp
  obtain ⟨m', hm', rfl⟩ := hp'
  obtain ⟨m'', hm'', hle⟩ := h i m hm
  cases hm'.symm.trans hm''
  exact hle r

/-- Machines that moved by a negative error lost no share. -/
theorem Controller.Moved.spares {c : Controller Extended} {error : Extended}
    {before after : Testbed Extended} (h : c.Moved error before.machines after.machines)
    (hkeeps : before.Keeps) (hneg : ∀ e, error = finite e → e < 0) : before.Spares after := by
  intro i m hm
  have hmachine := hkeeps m (List.mem_of_getElem? hm)
  cases hcs : c.channels[i]? with
  | none =>
    -- A machine that is not managed is as it was.
    refine ⟨m, (h.others i (Or.inr hcs)).trans hm, fun r => ?_⟩
    obtain ⟨share, hshare, _⟩ := Extended.exists_finite_of_inUnit (hmachine.inUnit r)
    rw [hshare]
    exact (Extended.finite_le _ _).mpr (le_refl share)
  | some cs =>
    obtain ⟨deltas, m', hdeltas, hm', hshares⟩ := h.managed i m cs hm hcs
    refine ⟨m', hm', fun r => ?_⟩
    obtain ⟨rs, e, _, herror, _, hchange⟩ := surfaceDeltas?_exact hdeltas
    have hlow : e ≤ 1 / 10 := by linarith [hneg e herror]
    rw [hshares r, hchange r]
    exact Machine.le_shareAfter hmachine r (change_nonneg _ hlow)

namespace Station

/-- **Capacity is not taken from an application that misses its target.**  An applied control
was driven by the last metric with a target.  If that target is positive and the estimate is
worse, no share of any machine becomes smaller; if the target is negative, none does as long
as the estimate is better. -/
theorem control_spares_lagging {s : Station Extended} (hs : s.Reachable) {c : Controller Extended}
    (hc : s.manager.policy = .fuzzy c) (stamp : Int)
    (happlied : (s.perform stamp .control).result = .ok (.controlled .applied)) :
    ∃ m target y, s.manager.core.targets.entries.getLast? = some (m, target)
      ∧ s.manager.core.estimate? m = some y
      ∧ ((0.0 : Extended) < target → m.Misses target y →
        s.testbed.Spares (s.perform stamp .control).station.testbed)
      ∧ (target < (0.0 : Extended) → m.Beats target y →
        s.testbed.Spares (s.perform stamp .control).station.testbed) := by
  have hsound := hs.sound
  have hkeeps : s.testbed.Keeps := hsound.machines
  have houtcome : (s.perform stamp .control).result
      = .ok (.controlled (c.decide s.testbed s.manager.core.readings).outcome) := by
    show Except.ok (Reply.controlled (s.manager.policy.control _ _ _ _).outcome) = _
    rw [hc]
    rfl
  have htestbed : (s.perform stamp .control).station.testbed
      = { s.testbed with machines := (c.decide s.testbed s.manager.core.readings).machines } := by
    show (s.manager.policy.control _ _ _ _).testbed = _
    rw [hc]
    rfl
  rw [houtcome] at happlied
  rw [htestbed]
  rcases c.decide_cases s.testbed s.manager.core.readings with
    ⟨reason, _, hdecide⟩ | ⟨error, hdriving, ⟨e, _, hdecide⟩ | ⟨deltas, hinfer, hdecide⟩⟩
  · rw [hdecide] at happlied
    cases happlied
  · rw [hdecide] at happlied
    cases happlied
  · obtain ⟨_, _, m, target, y, hlast, hy, herror⟩ :=
      (Controller.drivingError_ok_iff _ _ _).mp hdriving
    have htarget : IsTarget target :=
      hsound.core.target m target (Core.mem_entries (List.mem_of_getLast? hlast))
    obtain ⟨t, rfl⟩ := (Extended.isFinite_iff target).mp htarget.1
    have hmoved := Controller.moved_actuate (hsound.policy c hc) hkeeps hinfer
    rw [hdecide]
    refine ⟨m, finite t, y, hlast, hy, fun hpositive hmisses => ?_, fun hnegative hbeats => ?_⟩
    -- Wherever the error is a number, so is the estimate, and the target settles the sign.
    · refine hmoved.spares hkeeps fun e he => ?_
      obtain ⟨q, rfl⟩ := Metric.estimate_exact (herror.trans he)
      rw [Extended.zero_eq, Extended.finite_lt] at hpositive
      exact Metric.error_neg_of_misses hpositive hmisses (herror.trans he)
    · refine hmoved.spares hkeeps fun e he => ?_
      obtain ⟨q, rfl⟩ := Metric.estimate_exact (herror.trans he)
      rw [Extended.zero_eq, Extended.finite_lt] at hnegative
      exact Metric.error_neg_of_beats hnegative hbeats (herror.trans he)

/-- The trial with half a share of the processor, and a response that takes twice its time. -/
def lagging : Station Extended := (tried 2.0).after [(0, .setShare 0 .cpu 0.5)]

/-- In the lagging trial the processor's share grows and that of the memory stays. -/
theorem control_spares_trial :
    lagging.Reachable
      ∧ (lagging.perform 0 .control).result = .ok (.controlled .applied)
      ∧ (0.0 : Extended) < 1.0 ∧ Metric.Misses .responseTime (1.0 : Extended) 2.0
      ∧ lagging.testbed.Spares (lagging.perform 0 .control).station.testbed
      ∧ lagging.testbed.shares = [⟨0.5, 1.0⟩]
      ∧ (lagging.perform 0 .control).station.testbed.shares = [⟨1.0, 1.0⟩] := by
  have hreachable : lagging.Reachable := (reachable_tried 2.0).after _
  have happlied : (lagging.perform 0 .control).result = .ok (.controlled .applied) :=
    Performed.result_of_isApplied (by decide +kernel)
  have hpositive : (0.0 : Extended) < 1.0 := by decide +kernel
  have hmisses : Metric.Misses .responseTime (1.0 : Extended) 2.0 := by
    show (1.0 : Extended) < 2.0
    decide +kernel
  have hlast : lagging.manager.core.targets.entries.getLast? = some (.responseTime, 1.0) := by
    decide +kernel
  have hestimate : lagging.manager.core.estimate? .responseTime = some 2.0 := by decide +kernel
  obtain ⟨c, hc⟩ := Policy.exists_fuzzy (p := lagging.manager.policy) (by decide +kernel)
  obtain ⟨m, target, y, hlast', hy, hspares, _⟩ :=
    control_spares_lagging hreachable hc 0 happlied
  cases hlast.symm.trans hlast'
  cases hestimate.symm.trans hy
  exact ⟨hreachable, happlied, hpositive, hmisses, hspares hpositive hmisses, by decide +kernel,
    by decide +kernel⟩

/-- The trial with a negative target, which is accepted. -/
def inverted : Station Extended :=
  ((trial.after [(0, .setTarget .responseTime (-1.0))]).perform 0 .reset).station.after
    (trialRun 0.5)

/-- A response that takes longer than a negative target costs the application capacity. -/
theorem not_spared_trial :
    inverted.Reachable
      ∧ inverted.manager.core.targets.entries.getLast? = some (.responseTime, -1.0)
      ∧ inverted.manager.core.estimate? .responseTime = some 0.5
      ∧ Metric.Misses .responseTime (-1.0 : Extended) 0.5
      ∧ (inverted.perform 0 .control).result = .ok (.controlled .applied)
      ∧ ¬ inverted.testbed.Spares (inverted.perform 0 .control).station.testbed := by
  have hmisses : Metric.Misses .responseTime (-1.0 : Extended) 0.5 := by
    show (-1.0 : Extended) < 0.5
    decide +kernel
  refine ⟨((reachable_trial.after _).perform 0 .reset).after _, by decide +kernel,
    by decide +kernel, hmisses, Performed.result_of_isApplied (by decide +kernel), fun h => ?_⟩
  -- Full shares before, and less than half of them afterwards.
  have hbefore : inverted.testbed.shares[0]? = some ⟨1.0, 1.0⟩ := by decide +kernel
  have hafter : (inverted.perform 0 .control).station.testbed.shares[0]? = some ⟨0.45, 0.45⟩ := by
    decide +kernel
  have hle : (1.0 : Extended) ≤ 0.45 := h.shares hbefore hafter .cpu
  revert hle
  decide +kernel

end Station

end Control

end CapacityControl
