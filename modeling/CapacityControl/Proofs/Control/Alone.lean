/-
  CapacityControl.Proofs.Control.Alone
  ────────────────────────────────────
  EVERY MACHINE IS DECIDED ALONE.  Before each machine the engine is restarted, so nothing
  is left in it of the machines before: what it comes to is what a new engine would
  (`alone`), and whatever happens it can be restarted to the surface again.  Deciding for
  all machines therefore succeeds with the decisions of each alone, or fails with the
  first that fails alone (`inferAll_ok_iff`, `inferAll_result`).
-/
import CapacityControl.Control.Inference
import CapacityControl.Proofs.Result
import CapacityControl.Proofs.Surface.Response

namespace CapacityControl.Control

open Fuzzy

variable {α : Type} [Scalar α]

/-! ## §1. Restarting. -/

theorem restart_surface : (surface : Engine α).restart = surface := rfl

/-- What an engine is fed with does not depend on what it was used for before. -/
theorem feed_eq {e : Engine α} (he : e.restart = surface) (residuals : PerResource α) (error : α) :
    feed e residuals error = .ok (fedSurface residuals error) := by
  rw [← feed_surface]
  unfold feed
  rw [he, restart_surface]

theorem restart_fedSurface (residuals : PerResource α) (error : α) :
    (fedSurface residuals error).restart = surface := rfl

theorem restart_answered (residuals : PerResource α) (error : α) :
    (answered residuals error).restart = surface := rfl

/-! ## §2. One machine. -/

/-- What is decided for a machine if it is the only one and the engine is new. -/
def alone (error : α) (m : Residuals α) : Except (Error α) (PerResource α) :=
  (inferMachine surface error m).result

theorem inferMachine_eq {e : Engine α} (he : e.restart = surface) (error : α) (m : Residuals α) :
    inferMachine e error m = inferMachine surface error m := by
  unfold inferMachine
  rw [feed_eq he, feed_surface]

/-- **Deciding for a machine** is asking the surface. -/
theorem inferMachine_surface (error : α) (m : Residuals α) :
    inferMachine surface error m
      = match respond surface m.2 error with
        | .error x => ⟨fedSurface m.2 error, .error (.inference x)⟩
        | .ok engine => ⟨engine, recommendations engine m.1⟩ := by
  unfold inferMachine respond
  rw [feed_surface]
  rfl

/-- However a decision ends, the engine can be restarted to the surface. -/
theorem restart_inferMachine {e : Engine α} (he : e.restart = surface) (error : α)
    (m : Residuals α) : (inferMachine e error m).engine.restart = surface := by
  rw [inferMachine_eq he, inferMachine_surface]
  cases h : respond surface m.2 error with
  | error x => exact restart_fedSurface m.2 error
  | ok engine =>
    rw [eq_answered h]
    exact restart_answered m.2 error

/-- The changes that the surface recommends, if both are numbers. -/
def surfaceDeltas? (residuals : PerResource α) (error : α) : Option (PerResource α) :=
  match respond surface residuals error with
  | .error _ => none
  | .ok engine =>
    if Scalar.isFinite (delta engine .cpu) && Scalar.isFinite (delta engine .memory) then
      some ⟨delta engine .cpu, delta engine .memory⟩
    else none

theorem recommendation_answered (residuals : PerResource α) (error : α) (machine : String)
    (r : Resource) :
    recommendation (answered residuals error) machine r
      = if Scalar.isFinite (delta (answered residuals error) r) then
          .ok (delta (answered residuals error) r)
        else .error (.notFiniteOutput (deltaName r) machine (delta (answered residuals error) r)) := by
  cases r <;> rfl

/-- **A machine alone** is decided exactly if the surface recommends numbers. -/
theorem alone_ok_iff (error : α) (m : Residuals α) (deltas : PerResource α) :
    alone error m = .ok deltas ↔ surfaceDeltas? m.2 error = some deltas := by
  unfold alone surfaceDeltas?
  rw [inferMachine_surface]
  cases h : respond surface m.2 error with
  | error x =>
    constructor
    · intro hok
      cases hok
    · intro hsome
      cases hsome
  | ok engine =>
    rw [eq_answered h]
    show recommendations (answered m.2 error) m.1 = _ ↔ _
    unfold recommendations
    rw [recommendation_answered, recommendation_answered]
    show _ ↔ (if (Scalar.isFinite (delta (answered m.2 error) .cpu)
        && Scalar.isFinite (delta (answered m.2 error) .memory)) = true then
      some ⟨delta (answered m.2 error) .cpu, delta (answered m.2 error) .memory⟩
      else none) = some deltas
    -- The change of the processor is checked first; the other one is looked at only then.
    by_cases hcpu : Scalar.isFinite (delta (answered m.2 error) .cpu) = true
    · by_cases hmemory : Scalar.isFinite (delta (answered m.2 error) .memory) = true
      · simp [hcpu, hmemory, bind, Except.bind, pure, Except.pure]
      · simp [hcpu, hmemory, bind, Except.bind]
    · simp [hcpu, bind, Except.bind]

/-! ## §3. All machines. -/

/-- However deciding ends, the engine can be restarted to the surface. -/
theorem restart_inferAll {e : Engine α} (he : e.restart = surface) (error : α)
    (ms : List (Residuals α)) : (inferAll e error ms).engine.restart = surface := by
  induction ms generalizing e with
  | nil => exact he
  | cons m ms ih =>
    have hengine := restart_inferMachine he error m
    unfold inferAll
    cases hm : inferMachine e error m with
    | mk engine result =>
      rw [hm] at hengine
      cases result with
      | error x => exact hengine
      | ok deltas =>
        have hrest := ih hengine
        simp only
        cases hms : inferAll engine error ms with
        | mk engine result =>
          rw [hms] at hrest
          cases result with
          | error x => exact hrest
          | ok rest => exact hrest

/-- **Deciding for all machines** is deciding for each alone, up to the first failure. -/
theorem inferAll_result {e : Engine α} (he : e.restart = surface) (error : α)
    (ms : List (Residuals α)) : (inferAll e error ms).result = ms.mapM (alone error) := by
  induction ms generalizing e with
  | nil => rfl
  | cons m ms ih =>
    have hengine := restart_inferMachine he error m
    rw [List.mapM_cons]
    unfold inferAll alone
    rw [← inferMachine_eq he]
    cases hm : inferMachine e error m with
    | mk engine result =>
      rw [hm] at hengine
      cases result with
      | error x => rfl
      | ok deltas =>
        -- The machines after this one find an engine that restarts to the surface again.
        have hrest := ih hengine
        simp only
        show _ = (ms.mapM (alone error)).bind fun rest => .ok (deltas :: rest)
        cases hms : inferAll engine error ms with
        | mk engine result =>
          rw [hms] at hrest
          rw [← hrest]
          cases result with
          | error x => rfl
          | ok rest => rfl

/-- **All machines are decided** exactly if each alone is, and then as each alone. -/
theorem inferAll_ok_iff {e : Engine α} (he : e.restart = surface) (error : α)
    (ms : List (Residuals α)) (deltas : List (PerResource α)) :
    (inferAll e error ms).result = .ok deltas ↔ ms.map (alone error) = deltas.map .ok := by
  rw [inferAll_result he, mapM_eq_ok_iff]

/-- Deciding fails as soon as one machine fails alone. -/
theorem inferAll_error_iff {e : Engine α} (he : e.restart = surface) (error : α)
    (ms : List (Residuals α)) :
    (∃ x, (inferAll e error ms).result = .error x) ↔ ∃ m ∈ ms, surfaceDeltas? m.2 error = none := by
  rw [inferAll_result he, mapM_eq_error_iff]
  refine exists_congr fun m => and_congr_right fun _ => ?_
  constructor
  · rintro ⟨x, hx⟩
    cases h : surfaceDeltas? m.2 error with
    | none => rfl
    | some deltas =>
      rw [(alone_ok_iff error m deltas).mpr h] at hx
      cases hx
  · intro hnone
    cases h : alone error m with
    | error x => exact ⟨x, rfl⟩
    | ok deltas =>
      rw [(alone_ok_iff error m deltas).mp h] at hnone
      cases hnone

end CapacityControl.Control
