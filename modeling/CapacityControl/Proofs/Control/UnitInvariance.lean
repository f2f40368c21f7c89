/-
  CapacityControl.Proofs.Control.UnitInvariance
  ─────────────────────────────────────────────
  UNITS DO NOT MATTER.  Take two stations of which one measures some metric in another unit:
  its targets and all readings of that metric are those of the other times a positive factor.
  Whatever happens to both, also while their calls are paced, the answers are the same
  (`Station.InUnits.run`).  So every control comes to the same outcome, from the same relative
  errors, with the same changes of the same shares (`Station.unit_invariant`).
-/
import CapacityControl.Proofs.Control.Units
import Mathlib.Data.List.Forall2

namespace CapacityControl.Control

variable {α : Type} [Scalar α]

namespace Station

variable {u : Units α} {s s' : Station α}

/-! ## §1. Paced steps of both. -/

/-- The same was walked in other units. -/
structure Walk.SameWalk (u : Units α) (w w' : Walk α) : Prop where
  samples : w'.samples = w.samples
  performed : SameAnswer u w.performed w'.performed

/-- A walk begins where both stand. -/
theorem InUnits.walk (h : InUnits u s s') : Walk.SameWalk u ⟨[], s.changed⟩ ⟨[], s'.changed⟩ :=
  ⟨rfl, h.changed⟩

/-- The items of a turn are the same ones, in other units. -/
theorem itemsAt_rescaled (feeds : List (List (Item α))) (number : Nat) :
    itemsAt (feeds.map (·.map (Item.rescaled u))) number
      = (itemsAt feeds number).map (Item.rescaled u) := by
  unfold itemsAt
  rw [List.length_map, List.getElem?_map]
  cases feeds[number % feeds.length]? with
  | none => rfl
  | some items => rfl

section Walks

variable {w w' : Walk α} (h : w.SameWalk u w') (feeds : List (List (Item α))) (stamp : Int)

include h

theorem Walk.SameWalk.on (samples : List α) {p p' : Performed α} (hp : SameAnswer u p p') :
    (w.on samples p).SameWalk u (w'.on samples p') where
  samples := congrArg (· ++ samples) h.samples
  performed :=
    { station := hp.station
      result := hp.result
      warnings := by
        show w'.performed.warnings ++ p'.warnings = w.performed.warnings ++ p.warnings
        rw [h.performed.warnings, hp.warnings]
      notices := by
        show w'.performed.notices ++ p'.notices = w.performed.notices ++ p.notices
        rw [h.performed.notices, hp.notices] }

/-- **One call** in other units. -/
theorem Walk.SameWalk.call (call : Call α) :
    (w.call feeds stamp call).SameWalk u
      (w'.call (feeds.map (·.map (Item.rescaled u))) stamp call) := by
  cases call with
  | sample time =>
    show (w.on [time] _).SameWalk u (w'.on [time]
      (w'.performed.station.feed (itemsAt (feeds.map _) w'.samples.length)).sample)
    rw [h.samples, itemsAt_rescaled]
    exact h.on [time] (h.performed.station.feed _).sample
  | control time => exact h.on [] (h.performed.station.control stamp)

end Walks

/-- **The controls of both** are made by stations that correspond, at the same times. -/
def Corresponding (u : Units α) (x x' : Int × Station α) : Prop :=
  x'.1 = x.1 ∧ InUnits u x.2 x'.2

/-- **All calls** in other units. -/
theorem Walk.SameWalk.calls (feeds : List (List (Item α))) (stamp : Int) (calls : List (Call α))
    {w w' : Walk α} (h : w.SameWalk u w') :
    let feeds' := feeds.map (·.map (Item.rescaled u))
    (calls.foldl (Walk.call feeds stamp) w).SameWalk u (calls.foldl (Walk.call feeds' stamp) w')
      ∧ List.Forall₂ (Corresponding u) (w.controls feeds stamp calls)
        (w'.controls feeds' stamp calls) := by
  intro feeds'
  induction calls generalizing w w' with
  | nil => exact ⟨h, .nil⟩
  | cons call calls ih =>
    obtain ⟨hwalk, hcontrols⟩ := ih (h.call feeds stamp call)
    refine ⟨hwalk, ?_⟩
    cases call with
    | sample time => exact hcontrols
    | control time => exact .cons ⟨rfl, h.performed.station⟩ hcontrols

/-! ## §2. Runs of both. -/

/-- **Any action** in other units: the answer is the same, and so are the controls. -/
theorem InUnits.perform (h : InUnits u s s') (stamp : Int) (a : Action α) :
    SameAnswer u (s.perform stamp a) (s'.perform stamp (a.rescaled u))
      ∧ List.Forall₂ (Corresponding u) (s.controlsOf stamp a)
        (s'.controlsOf stamp (a.rescaled u)) := by
  by_cases ha : a.isQuiet = true
  · have ha' : (a.rescaled u).isQuiet = true := by
      cases a with
      | reset | control | runUntil _ _ => cases ha
      | _ => rfl
    rw [controlsOf_quiet s stamp ha, controlsOf_quiet s' stamp ha']
    exact ⟨h.perform_quiet stamp ha, .nil⟩
  · cases a with
    | reset => exact ⟨h.reset, .nil⟩
    | control => exact ⟨h.control stamp, .cons ⟨rfl, h⟩ .nil⟩
    | runUntil time feeds =>
      show SameAnswer u (s.runUntil time feeds stamp) (s'.runUntil time _ stamp)
        ∧ List.Forall₂ (Corresponding u) (s.controlsOf stamp (.runUntil time feeds))
          (s'.controlsOf stamp (.runUntil time _))
      unfold runUntil controlsOf
      rw [h.pacer]
      cases s.pacer with
      | none => exact ⟨⟨h, rfl, rfl, rfl⟩, .nil⟩
      | some pacer =>
        have hstart : InUnits u { s with pacer := some (pacer.runUntil time).2 }
            { s' with pacer := some (pacer.runUntil time).2 } :=
          { h with pacer := rfl }
        obtain ⟨hwalk, hcontrols⟩ := hstart.walk.calls feeds stamp (pacer.runUntil time).1
        exact ⟨{ hwalk.performed with
          result := congrArg (fun samples => Except.ok (Reply.paced samples)) hwalk.samples },
          hcontrols⟩
    | _ => exact absurd rfl ha

end Station

/-- The same actions at the same times, in other units. -/
def rescaledRun (u : Units α) (run : List (Int × Action α)) : List (Int × Action α) :=
  run.map fun x => (x.1, x.2.rescaled u)

namespace Station

/-- **A run** in other units: all answers are the same, and so are the controls. -/
theorem InUnits.run {u : Units α} {s s' : Station α} (h : InUnits u s s')
    (run : List (Int × Action α)) :
    s'.answers (rescaledRun u run) = s.answers run
      ∧ List.Forall₂ (Corresponding u) (s.controls run) (s'.controls (rescaledRun u run)) := by
  induction run generalizing s s' with
  | nil => exact ⟨rfl, .nil⟩
  | cons x run ih =>
    obtain ⟨stamp, a⟩ := x
    obtain ⟨hanswer, hcontrols⟩ := h.perform stamp a
    obtain ⟨hanswers, hrest⟩ := ih hanswer.station
    refine ⟨?_, List.rel_append hcontrols hrest⟩
    show (_, _, _) :: (s'.perform stamp (a.rescaled u)).station.answers (rescaledRun u run)
      = (_, _, _) :: _
    rw [hanswers, hanswer.result, hanswer.warnings, hanswer.notices]

end Station

/-! ## §3. What controls come to. -/

/-- **The changes that a controller decides on**, if it comes to a decision. -/
def Controller.deltas? (c : Controller α) (t : Testbed α) (readings : List (TargetReading α)) :
    Option (List (PerResource α)) :=
  match drivingError (c.managed t) readings with
  | .error _ => none
  | .ok error => (inferAll c.engine error (residuals (c.managed t))).result.toOption

/-- These are the changes that are sent to the machines. -/
theorem Controller.machines_decide (c : Controller α) (t : Testbed α)
    (readings : List (TargetReading α)) :
    (c.decide t readings).machines
      = (c.deltas? t readings).elim t.machines fun deltas => (actuate t.machines deltas).1 := by
  unfold deltas?
  rcases c.decide_cases t readings with
    ⟨reason, hdriving, hdecide⟩ | ⟨error, hdriving, ⟨e, hinfer, hdecide⟩ | ⟨ds, hinfer, hdecide⟩⟩
  · rw [hdriving, hdecide]
    rfl
  · rw [hdriving, hdecide]
    dsimp only
    rw [hinfer]
    rfl
  · rw [hdriving, hdecide]
    dsimp only
    rw [hinfer]
    rfl

/-- The changes that a policy decides on; the monitor never decides on any. -/
def Policy.deltas? (p : Policy α) (t : Testbed α) (readings : List (TargetReading α)) :
    Option (List (PerResource α)) :=
  match p with
  | fuzzy c => c.deltas? t readings
  | monitor _ => none

theorem Policy.deltas?_unlogged (p : Policy α) (t : Testbed α) (readings : List (TargetReading α)) :
    p.unlogged.deltas? t readings = p.deltas? t readings := by
  cases p with
  | fuzzy c => rfl
  | monitor c => rfl

theorem Policy.deltas?_rescaled (u : Units α) (p : Policy α) (t : Testbed α)
    (readings : List (TargetReading α)) :
    p.deltas? (t.rescaled u) (readings.map (TargetReading.rescaled u)) = p.deltas? t readings := by
  cases p with
  | fuzzy c =>
    show c.deltas? _ _ = c.deltas? _ _
    unfold Controller.deltas?
    rw [Controller.drivingError_rescaled]
    rfl
  | monitor c => rfl

namespace Station

/-- **Two controls are alike**: at the same time, from readings that differ in their units, they
have the same relative errors, decide on the same changes, come to the same outcome, and find and
leave the same shares. -/
structure ControlsAlike (u : Units α) (x x' : Int × Station α) : Prop where
  time : x'.1 = x.1
  /-- Targets and their estimates are those of the other control in other units. -/
  readings : x'.2.manager.core.readings
    = x.2.manager.core.readings.map (TargetReading.rescaled u)
  /-- So are the estimates of all metrics, with a target or without. -/
  estimates : ∀ m, x'.2.manager.core.estimate? m
    = (x.2.manager.core.estimate? m).map (u m).value
  errors : x'.2.manager.core.readings.map TargetReading.error?
    = x.2.manager.core.readings.map TargetReading.error?
  deltas : x'.2.manager.policy.deltas? x'.2.testbed x'.2.manager.core.readings
    = x.2.manager.policy.deltas? x.2.testbed x.2.manager.core.readings
  outcome : (x'.2.control x'.1).result = (x.2.control x.1).result
  sharesBefore : x'.2.testbed.shares = x.2.testbed.shares
  sharesAfter : (x'.2.control x'.1).station.testbed.shares
    = (x.2.control x.1).station.testbed.shares

/-- Stations that correspond make controls that are alike. -/
theorem Corresponding.alike {u : Units α} {x x' : Int × Station α} (h : Corresponding u x x') :
    ControlsAlike u x x' := by
  obtain ⟨stamp, s⟩ := x
  obtain ⟨stamp', s'⟩ := x'
  obtain ⟨rfl, h⟩ := h
  have hreadings : s'.manager.core.readings
      = s.manager.core.readings.map (TargetReading.rescaled u) := by
    rw [h.core, Core.readings_rescaled]
  have hshares : ∀ {r r' : Station α}, InUnits u r r' → r'.testbed.shares = r.testbed.shares := by
    intro r r' hr
    rw [hr.testbed]
    rfl
  refine ⟨rfl, hreadings, fun m => ?_, ?_, ?_, (h.control stamp').result, hshares h,
    hshares (h.control stamp').station⟩
  · rw [h.core, Core.estimate?_rescaled]
  · rw [hreadings, List.map_map]
    exact List.map_congr_left fun r _ => r.error?_rescaled u
  · rw [hreadings, h.testbed, ← Policy.deltas?_unlogged, h.policy, Policy.deltas?_rescaled,
      Policy.deltas?_unlogged]

/-- **Units do not matter.**  Take a station and any run.  If the targets and all readings of a
metric are multiplied by a positive rational, then every action is answered as before, and every
control is like the one before: its relative errors, its changes, its outcome and the shares are
the same, and the estimates of that metric are multiplied as well. -/
theorem unit_invariant (metric : Metric) {k : Rat} (hk : 0 < k) (s : Station Extended)
    (run : List (Int × Action Extended)) :
    let u := Units.only metric (.times k hk)
    (s.rescaled u).answers (rescaledRun u run) = s.answers run
      ∧ List.Forall₂ (ControlsAlike u) (s.controls run)
        ((s.rescaled u).controls (rescaledRun u run)) := by
  intro u
  obtain ⟨hanswers, hcontrols⟩ := (inUnits_rescaled u s).run run
  exact ⟨hanswers, hcontrols.imp fun _ _ h => h.alike⟩

/-- Two responses, and two controls after one sample. -/
def responsesRun : List (Int × Action Extended) :=
  [(0, .reset),
    (0, .feed [.machine 0 .cpu 0.5, .machine 0 .memory 0.5, .output .responseTime 0.25,
      .output .responseTime 0.75]),
    (0, .sample), (0, .control), (1, .control)]

/-- In a trial seconds become milliseconds: the mean of the responses is half a second or five
hundred milliseconds.  From both the first control moves the shares; the second finds nothing to
decide from. -/
theorem unit_invariant_trial :
    let u : Units Extended := .only .responseTime (.times 1000 (by decide))
    (0 : Rat) < 1000
      ∧ (trial.rescaled u).answers (rescaledRun u responsesRun) = trial.answers responsesRun
      ∧ List.Forall₂ (ControlsAlike u) (trial.controls responsesRun)
        ((trial.rescaled u).controls (rescaledRun u responsesRun))
      ∧ (trial.controls responsesRun).map (·.2.manager.core.estimate? .responseTime)
        = [some 0.5, none]
      ∧ ((trial.rescaled u).controls (rescaledRun u responsesRun)).map
          (·.2.manager.core.estimate? .responseTime) = [some 500.0, none]
      ∧ (trial.after responsesRun).manager.policy.counters = ⟨2, 1, 0, 1⟩
      ∧ (trial.after responsesRun).testbed.shares ≠ trial.testbed.shares := by
  intro u
  obtain ⟨hanswers, hcontrols⟩ :=
    unit_invariant .responseTime (k := 1000) (by decide) trial responsesRun
  refine ⟨by decide, hanswers, hcontrols, ?_, ?_, ?_, ?_⟩
  · decide +kernel
  · decide +kernel
  · decide +kernel
  · decide +kernel

end Station

end CapacityControl.Control
