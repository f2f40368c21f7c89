/-
  CapacityControl.Control.Counters
  ────────────────────────────────
  BOOKKEEPING.  A control is applied, skipped or failed, and the counters add up how
  many there were of each.
-/
import CapacityControl.Control.Error

namespace CapacityControl.Control

/-! ## §1. Outcomes. -/

/-- Why a control is skipped. -/
inductive SkipReason where
  /-- A resource of a machine delivered nothing since the last control. -/
  | noReading (resource : Resource) (machine : String)
  /-- Nothing was observed of a metric that has a target. -/
  | noEstimate (metric : Metric)
  | noTarget
  deriving DecidableEq, Repr

/-- The wording of a reason. -/
def SkipReason.text : SkipReason → String
  | noReading r machine => "no " ++ r.name ++ " observation for VM " ++ machine
  | noEstimate m => "no " ++ m.name ++ " observation for the application"
  | noTarget => "no target metric"

/-- What a control did. -/
inductive Outcome (α : Type) where
  /-- Every change was decided and sent; a machine may still have refused its update. -/
  | applied
  /-- An observation is missing, so nothing was decided. -/
  | skipped (reason : SkipReason)
  /-- Inference failed, so no change was sent. -/
  | failed (cause : Error α)

/-! ## §2. Counters. -/

/-- The number of controls, and of those skipped, failed and applied; numbers start over at
`2^64`. -/
structure Counters where
  controls : UInt64
  skips : UInt64
  failures : UInt64
  applied : UInt64
  deriving DecidableEq, Repr

namespace Counters

/-- No controls yet. -/
def zero : Counters := ⟨0, 0, 0, 0⟩

/-- Counts one control. -/
def record {α : Type} (c : Counters) : Outcome α → Counters
  | .applied => { c with controls := c.controls + 1, applied := c.applied + 1 }
  | .skipped _ => { c with controls := c.controls + 1, skips := c.skips + 1 }
  | .failed _ => { c with controls := c.controls + 1, failures := c.failures + 1 }

/-- Whether every control is counted by its outcome. -/
def isConsistent (c : Counters) : Bool := c.controls == c.skips + c.failures + c.applied

end Counters

end CapacityControl.Control
