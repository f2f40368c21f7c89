/-
  CapacityControl.Proofs.Control.Settings
  ───────────────────────────────────────
  WHAT THE SETTINGS OF A MANAGER SATISFY, in any arithmetic.  Every target is a number
  other than zero and has an estimator, and every quantile is one at a probability
  between zero and one (`Core.Sound`).  Setters check what they set, and a configuration
  makes one checked change after the other (`inTurn_invariant`).  Resets, samples and ends
  of intervals leave the targets alone and only move the statistics on (`Core.MovesOn`).
-/
import CapacityControl.Control.Core
import CapacityControl.Proofs.Control.Sampling
import CapacityControl.Proofs.Stats.Estimate

namespace CapacityControl

variable {α : Type} [Scalar α]

namespace Control

open Stats

/-! ## §1. Changes in turn. -/

section InTurn

variable {σ : Type} {change : Change σ α} {changes first : List (Change σ α)} {s s' : σ}

omit [Scalar α] in
/-- A change that is accepted is made, and the others follow. -/
theorem inTurn_cons (h : change s = .ok s') :
    inTurn (change :: changes) s = inTurn changes s' := by
  rw [inTurn, h]

omit [Scalar α] in
theorem inTurn_append (h : inTurn first s = ⟨s', .ok ()⟩) :
    inTurn (first ++ changes) s = inTurn changes s' := by
  induction first generalizing s with
  | nil =>
    cases h
    rfl
  | cons change first ih =>
    cases hchange : change s with
    | error e =>
      rw [inTurn, hchange] at h
      cases h
    | ok next =>
      rw [inTurn_cons hchange] at h
      rw [List.cons_append, inTurn_cons hchange, ih h]

omit [Scalar α] in
/-- What every change keeps is kept, wherever the changes break off. -/
theorem inTurn_invariant {P : σ → Prop}
    (hstep : ∀ change ∈ changes, ∀ s s', P s → change s = .ok s' → P s') (hs : P s) :
    P (inTurn changes s).state := by
  induction changes generalizing s with
  | nil => exact hs
  | cons change changes ih =>
    unfold inTurn
    cases hchange : change s with
    | error e => exact hs
    | ok next =>
      exact ih (fun other hother => hstep other (List.mem_cons_of_mem _ hother))
        (hstep change List.mem_cons_self s next hs hchange)

end InTurn

/-! ## §2. Targets. -/

/-- A target that `checkTarget` accepts. -/
def IsTarget (value : α) : Prop := Scalar.isFinite value = true ∧ (value == 0.0) = false

theorem checkTarget_ok {value checked : α} (h : checkTarget value = .ok checked) :
    checked = value ∧ IsTarget value := by
  unfold checkTarget at h
  obtain ⟨number, hnumber, h⟩ := bind_eq_ok_iff.mp h
  rw [mapError_eq_ok_iff] at hnumber
  unfold ensureFinite at hnumber
  by_cases hfinite : Scalar.isFinite value = true
  · rw [if_pos hfinite] at hnumber
    cases hnumber
    by_cases hzero : (value == 0.0) = true
    · rw [if_pos hzero] at h
      cases h
    · rw [if_neg hzero] at h
      cases h
      exact ⟨rfl, hfinite, Bool.not_eq_true _ ▸ hzero⟩
  · rw [if_neg hfinite] at hnumber
    cases hnumber

namespace Core

/-- Targets are valid and have estimators, and the estimators are sound. -/
structure Sound (c : Core α) : Prop where
  target : ∀ m value, c.targets.get m = some value → IsTarget value
  estimated : ∀ m, (c.targets.get m).isSome → (c.estimators.get m).isSome
  estimator : ∀ m e, c.estimators.get m = some e → e.Sound

theorem sound_initial : (initial : Core α).Sound := by
  refine ⟨fun m value h => ?_, fun m h => ?_, fun m e h => ?_⟩
  · cases m <;> cases h
  · cases m <;> cases h
  · cases m <;> cases h

/-- Soundness is a matter of targets and estimators only. -/
theorem Sound.of_eq {c d : Core α} (hc : c.Sound) (htargets : d.targets = c.targets)
    (hestimators : d.estimators = c.estimators) : d.Sound := by
  refine ⟨?_, ?_, ?_⟩
  · rw [htargets]
    exact hc.target
  · rw [htargets, hestimators]
    exact hc.estimated
  · rw [hestimators]
    exact hc.estimator

theorem Sound.withoutTargets {c : Core α} (hc : c.Sound) : c.withoutTargets.Sound := by
  refine ⟨fun m value h => ?_, fun m h => ?_, hc.estimator⟩
  · cases m <;> cases h
  · cases m <;> cases h

theorem Sound.withEstimator {c : Core α} (hc : c.Sound) (m : Metric) {e : Estimator α}
    (he : e.Sound) : (c.withEstimator m e).Sound := by
  refine ⟨hc.target, fun k hk => ?_, fun k f hf => ?_⟩
  · show ((c.estimators.set m (some e)).get k).isSome = true
    rw [PerMetric.get_set]
    split
    · rfl
    · exact hc.estimated k hk
  · change (c.estimators.set m (some e)).get k = some f at hf
    rw [PerMetric.get_set] at hf
    by_cases hkm : k = m
    · rw [if_pos hkm] at hf
      cases hf
      exact he
    · rw [if_neg hkm] at hf
      exact hc.estimator k f hf

theorem Sound.withTarget {c d : Core α} (hc : c.Sound) {m : Metric} {value : α}
    (h : c.withTarget m value = .ok d) : d.Sound := by
  obtain ⟨checked, hcheck, h⟩ := bind_eq_ok_iff.mp h
  cases h
  obtain ⟨rfl, htarget⟩ := checkTarget_ok hcheck
  refine ⟨fun k v hv => ?_, fun k hk => ?_, fun k e he => ?_⟩
  · change (c.targets.set m (some checked)).get k = some v at hv
    rw [PerMetric.get_set] at hv
    by_cases hkm : k = m
    · rw [if_pos hkm] at hv
      cases hv
      exact htarget
    · rw [if_neg hkm] at hv
      exact hc.target k v hv
  · change ((c.targets.set m (some checked)).get k).isSome = true at hk
    show ((c.estimators.modify m fun e => some (e.getD (.mean .empty))).get k).isSome = true
    rw [PerMetric.get_set] at hk
    rw [PerMetric.get_modify]
    by_cases hkm : k = m
    · rw [if_pos hkm]
      rfl
    · rw [if_neg hkm] at hk ⊢
      exact hc.estimated k hk
  · change (c.estimators.modify m fun e => some (e.getD (.mean .empty))).get k = some e at he
    rw [PerMetric.get_modify] at he
    by_cases hkm : k = m
    · rw [if_pos hkm] at he
      cases hget : c.estimators.get k with
      | none =>
        rw [hget] at he
        cases he
        exact Estimator.sound_mean _
      | some before =>
        rw [hget] at he
        cases he
        exact hc.estimator k before hget
    · rw [if_neg hkm] at he
      exact hc.estimator k e he

/-- **Every change of a configuration** sets what it has checked. -/
theorem Sound.changed {c d : Core α} (hc : c.Sound) {config : Config α} {change : Change (Core α) α}
    (hchange : change ∈ config.changes) (h : change c = .ok d) : d.Sound := by
  simp only [Config.changes, Target.changes, List.mem_append, List.mem_cons, List.not_mem_nil,
    List.mem_flatMap, Prod.exists, or_false] at hchange
  rcases hchange with ((rfl | rfl) | rfl | ⟨m, t, _, rfl | rfl⟩) | rfl | rfl
  · obtain ⟨i, _, rfl⟩ := map_eq_ok_iff.mp h
    exact hc.of_eq rfl rfl
  · obtain ⟨i, _, rfl⟩ := map_eq_ok_iff.mp h
    exact hc.of_eq rfl rfl
  · cases h
    exact hc.withoutTargets
  · obtain ⟨e, he, rfl⟩ := map_eq_ok_iff.mp h
    exact hc.withEstimator m (Estimator.sound_build (mapError_eq_ok_iff.mp he))
  · exact hc.withTarget h
  · cases h
    exact hc.of_eq rfl rfl
  · cases h
    exact hc.of_eq rfl rfl

/-! ## §3. Statistics. -/

theorem estimate?_eq {c : Core α} {m : Metric} {e : Estimator α}
    (he : c.estimators.get m = some e) (hcount : 0 < e.count) : c.estimate? m = e.estimate? := by
  unfold Core.estimate?
  rw [he, Option.filter_some, if_pos (decide_eq_true hcount), Option.bind_some]

/-- Before the first sample there is no estimate. -/
theorem estimate?_eq_none {c : Core α} {m : Metric} {e : Estimator α}
    (he : c.estimators.get m = some e) (hcount : e.count = 0) : c.estimate? m = none := by
  unfold Core.estimate?
  rw [he, Option.filter_some, if_neg (by simp [hcount]), Option.bind_none]

/-- **The statistics move on**: the targets stay, and every estimator changes in a way that
keeps a property of it. -/
structure MovesOn (P : Estimator α → Prop) (c d : Core α) : Prop where
  targets : d.targets = c.targets
  estimators : ∀ m, ∃ f : Estimator α → Estimator α,
    (∀ e, P e → P (f e)) ∧ d.estimators.get m = (c.estimators.get m).map f

section MovesOn

variable {P : Estimator α → Prop} {c d e : Core α}

omit [Scalar α] in
theorem MovesOn.refl (P : Estimator α → Prop) (c : Core α) : MovesOn P c c :=
  ⟨rfl, fun m => ⟨id, fun _ he => he, by rw [Option.map_id, id]⟩⟩

omit [Scalar α] in
theorem MovesOn.trans (h : MovesOn P c d) (h' : MovesOn P d e) : MovesOn P c e := by
  refine ⟨h'.targets.trans h.targets, fun m => ?_⟩
  obtain ⟨f, hf, hd⟩ := h.estimators m
  obtain ⟨g, hg, he⟩ := h'.estimators m
  exact ⟨g ∘ f, fun x hx => hg _ (hf x hx), by rw [he, hd, Option.map_map]⟩

omit [Scalar α] in
/-- A property that all estimators have, they still have afterwards. -/
theorem MovesOn.keeps (h : MovesOn P c d) (hc : ∀ m x, c.estimators.get m = some x → P x) :
    ∀ m x, d.estimators.get m = some x → P x := by
  intro m x hx
  obtain ⟨f, hf, hget⟩ := h.estimators m
  rw [hget, Option.map_eq_some_iff] at hx
  obtain ⟨before, hbefore, rfl⟩ := hx
  exact hf before (hc m before hbefore)

omit [Scalar α] in
theorem MovesOn.hasTarget (h : MovesOn P c d) : d.hasTarget = c.hasTarget := by
  unfold Core.hasTarget
  rw [h.targets]

theorem Sound.movesOn (hc : c.Sound) (h : MovesOn Estimator.Sound c d) : d.Sound := by
  refine ⟨?_, fun m hm => ?_, h.keeps hc.estimator⟩
  · rw [h.targets]
    exact hc.target
  · obtain ⟨f, _, hget⟩ := h.estimators m
    rw [hget, Option.isSome_map]
    rw [h.targets] at hm
    exact hc.estimated m hm

theorem movesOn_resetStatistics (hreset : ∀ x, P x → P x.reset) (c : Core α) :
    MovesOn P c c.resetStatistics :=
  ⟨rfl, fun m => ⟨Estimator.reset, hreset, PerMetric.get_map _ _ m⟩⟩

theorem movesOn_endInterval (hreset : ∀ x, P x → P x.reset) (c : Core α) :
    MovesOn P c c.endInterval := by
  unfold Core.endInterval
  by_cases h : c.resetsEachInterval = true
  · rw [if_pos h]
    exact ⟨rfl, fun m => ⟨Estimator.reset, hreset, PerMetric.get_map _ _ m⟩⟩
  · rw [if_neg h]
    exact .refl P c

theorem movesOn_collect {values : List α} (hcollect : ∀ x, P x → P (x.collectMany values))
    (c : Core α) (m : Metric) : MovesOn P c (c.collect m values) := by
  refine ⟨rfl, fun k => ?_⟩
  show ∃ f : Estimator α → Estimator α, (∀ x, P x → P (f x))
    ∧ (c.estimators.modify m _).get k = _
  rw [PerMetric.get_modify]
  by_cases hk : k = m
  · rw [if_pos hk]
    exact ⟨fun x => x.collectMany values, hcollect, rfl⟩
  · rw [if_neg hk]
    exact ⟨id, fun _ hx => hx, by rw [Option.map_id, id]⟩

/-- What reading one metric keeps, reading all of them keeps. -/
theorem sample_invariant {P : Polled α → Prop} (hstep : ∀ s m, P s → P (sampleMetric s m))
    {c : Core α} {t : Testbed α} (h : P ⟨c, t, []⟩) (wired : PerMetric Bool) :
    P (c.sample t wired) := by
  unfold Core.sample
  suffices hfold : ∀ (l : List Metric) (s : Polled α), P s → P (l.foldl sampleMetric s) from
    hfold _ _ h
  intro l
  induction l with
  | nil =>
    intro s hs
    exact hs
  | cons m l ih =>
    intro s hs
    exact ih _ (hstep s m hs)

theorem sampleMetric_core (s : Polled α) (m : Metric) :
    (sampleMetric s m).core
      = if (s.testbed.outputs.get m).read.1.values.isEmpty then s.core
        else s.core.collect m (s.testbed.outputs.get m).read.1.values := rfl

/-- Only numbers are ever collected, so a property of estimators that more numbers keep is
kept by a sample. -/
theorem movesOn_sample
    (hcollect : ∀ (values : List α), (∀ v ∈ values, Scalar.isFinite v = true) →
      ∀ x, P x → P (x.collectMany values))
    (c : Core α) (t : Testbed α) (wired : PerMetric Bool) :
    MovesOn P c (c.sample t wired).core := by
  refine sample_invariant (P := fun s => MovesOn P c s.core) (fun s m hs => ?_) (.refl P c) wired
  rw [sampleMetric_core]
  by_cases h : (s.testbed.outputs.get m).read.1.values.isEmpty = true
  · rw [if_pos h]
    exact hs
  · rw [if_neg h]
    exact hs.trans (movesOn_collect (hcollect _ fun v hv => Sensor.isFinite_of_mem_values hv) _ m)

theorem Sound.resetStatistics (hc : c.Sound) : c.resetStatistics.Sound :=
  hc.movesOn (movesOn_resetStatistics (fun _ hx => hx.reset) c)

theorem Sound.endInterval (hc : c.Sound) : c.endInterval.Sound :=
  hc.movesOn (movesOn_endInterval (fun _ hx => hx.reset) c)

theorem Sound.sample (hc : c.Sound) (t : Testbed α) (wired : PerMetric Bool) :
    (c.sample t wired).core.Sound :=
  hc.movesOn (movesOn_sample (fun values _ _ hx => hx.collectMany values) c t wired)

end MovesOn

/-- **A sample** changes nothing of the core but its statistics. -/
theorem core_sample (c : Core α) (t : Testbed α) (wired : PerMetric Bool) :
    ∃ estimators smoothers, (c.sample t wired).core
      = { c with estimators := estimators, smoothers := smoothers } := by
  refine sample_invariant (P := fun s => ∃ estimators smoothers,
    s.core = { c with estimators := estimators, smoothers := smoothers }) (fun s m hs => ?_)
    ⟨c.estimators, c.smoothers, rfl⟩ wired
  obtain ⟨estimators, smoothers, hs⟩ := hs
  rw [sampleMetric_core]
  split
  · exact ⟨estimators, smoothers, hs⟩
  · rw [hs]
    exact ⟨_, _, rfl⟩

/-- Reading the sensors of the application leaves the machines alone. -/
theorem machines_sample (c : Core α) (t : Testbed α) (wired : PerMetric Bool) :
    (c.sample t wired).testbed.machines = t.machines :=
  sample_invariant (P := fun s => s.testbed.machines = t.machines) (fun _ _ hs => hs) rfl wired

end Core

end Control

end CapacityControl
