/-
  CapacityControl.Control.Inference
  ─────────────────────────────────
  DECIDING CHANGES.  For each machine in turn the control surface is fed with the
  residuals of its resources and the relative error of the application.  The first
  failure ends the cycle: a decision is a change for every resource of every machine, or
  none at all.
-/
import CapacityControl.Control.Error
import CapacityControl.Control.Surface

namespace CapacityControl.Control

open Fuzzy

variable {α : Type} [Scalar α]

/-- A machine's name and the residuals of its resources. -/
abbrev Residuals (α : Type) := String × PerResource α

/-- An engine after an inference, and what the inference came to. -/
structure Inferred (α β : Type) where
  engine : Engine α
  result : Except (Error α) β

/-- The change that an engine recommends for a resource; it has to be a number. -/
def recommendation (e : Engine α) (machine : String) (r : Resource) : Except (Error α) α := do
  let delta ← (e.outputValue (deltaName r)).mapError .inference
  if Scalar.isFinite delta then .ok delta
  else .error (.notFiniteOutput (deltaName r) machine delta)

/-- The changes that an engine recommends for a machine, the processor's first. -/
def recommendations (e : Engine α) (machine : String) : Except (Error α) (PerResource α) := do
  let cpu ← recommendation e machine .cpu
  let memory ← recommendation e machine .memory
  pure ⟨cpu, memory⟩

/-- **Decides for one machine.**  Inputs stay set if inference fails. -/
def inferMachine (e : Engine α) (error : α) (m : Residuals α) : Inferred α (PerResource α) :=
  match feed e m.2 error with
  | .error x => ⟨e.restart, .error (.inference x)⟩
  | .ok fed =>
    match fed.process with
    | .error x => ⟨fed, .error (.inference x)⟩
    | .ok done => ⟨done, recommendations done m.1⟩

/-- **Decides for every machine**, one after the other, up to the first failure. -/
def inferAll (e : Engine α) (error : α) : List (Residuals α) → Inferred α (List (PerResource α))
  | [] => ⟨e, .ok []⟩
  | m :: ms =>
    match inferMachine e error m with
    | ⟨e, .error x⟩ => ⟨e, .error x⟩
    | ⟨e, .ok deltas⟩ =>
      match inferAll e error ms with
      | ⟨e, .error x⟩ => ⟨e, .error x⟩
      | ⟨e, .ok rest⟩ => ⟨e, .ok (deltas :: rest)⟩

end CapacityControl.Control
