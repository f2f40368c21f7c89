/-
  CapacityControl.Control.Step
  ────────────────────────────
  THE STEPS OF A POLICY.  A policy is what a manager does at a reset, when it samples and
  when it controls.  Each step is a function of everything it can see, and returns all
  that it leaves behind.
-/
import CapacityControl.Control.Core
import CapacityControl.Control.Counters

namespace CapacityControl.Control

/-- What a reset leaves behind, whether it succeeds or not. -/
structure Restarted (σ α : Type) where
  policy : σ
  storage : Storage
  result : Except (Error α) Unit

/-- What sampling leaves behind. -/
structure Sampled (σ α : Type) where
  policy : σ
  core : Core α
  testbed : Testbed α
  warnings : List (Warning α)

/-- What a control leaves behind. -/
structure Controlled (σ α : Type) where
  policy : σ
  core : Core α
  testbed : Testbed α
  storage : Storage
  outcome : Outcome α
  warnings : List (Warning α)

variable {σ τ α : Type}

/-- The same step of a policy seen as another. -/
def Restarted.map (f : σ → τ) (s : Restarted σ α) : Restarted τ α :=
  ⟨f s.policy, s.storage, s.result⟩

/-- The same step of a policy seen as another. -/
def Sampled.map (f : σ → τ) (s : Sampled σ α) : Sampled τ α :=
  ⟨f s.policy, s.core, s.testbed, s.warnings⟩

/-- The same step of a policy seen as another. -/
def Controlled.map (f : σ → τ) (s : Controlled σ α) : Controlled τ α :=
  ⟨f s.policy, s.core, s.testbed, s.storage, s.outcome, s.warnings⟩

end CapacityControl.Control
