/-
  CapacityControl.Control.Intervals
  ─────────────────────────────────
  TIME.  A loop samples and controls at two periods, given in milliseconds and kept in
  seconds.  A clock tells when a periodic call is next due.
-/
import CapacityControl.Requirement

namespace CapacityControl.Control

variable {α : Type} [Scalar α]

/-! ## §1. Milliseconds. -/

/-- Milliseconds in seconds. -/
def ofMilliseconds (t : α) : α := t * 0.001

/-- Seconds in milliseconds. -/
def toMilliseconds (t : α) : α := t * 1000.0

/-! ## §2. Periods. -/

/-- The two periods of a loop, in seconds. -/
structure Intervals (α : Type) where
  sampling : α
  control : α

namespace Intervals

/-- One millisecond each. -/
def standard : Intervals α := ⟨ofMilliseconds 1.0, ofMilliseconds 1.0⟩

/-- Sets the sampling period, in milliseconds. -/
def withSampling (i : Intervals α) (ms : α) : Except Requirement (Intervals α) :=
  (ensurePositive .samplingTime ms).map fun ms => { i with sampling := ofMilliseconds ms }

/-- Sets the control period, in milliseconds. -/
def withControl (i : Intervals α) (ms : α) : Except Requirement (Intervals α) :=
  (ensurePositive .controlTime ms).map fun ms => { i with control := ofMilliseconds ms }

/-- Both periods in milliseconds; the sampling period is looked at first. -/
def new (samplingMs controlMs : α) : Except Requirement (Intervals α) := do
  let i ← standard.withSampling samplingMs
  i.withControl controlMs

/-- The sampling period in milliseconds. -/
def samplingMs (i : Intervals α) : α := toMilliseconds i.sampling

/-- The control period in milliseconds. -/
def controlMs (i : Intervals α) : α := toMilliseconds i.control

end Intervals

/-! ## §3. Clocks. -/

/-- A period and the time at which it ends next. -/
structure Clock (α : Type) where
  period : α
  next : α

namespace Clock

/-- A clock that is due one period after the start. -/
def new (period start : α) : Clock α := ⟨period, start + period⟩

/-- Whether the period has ended. -/
def isDue (c : Clock α) (now : α) : Bool := decide (c.next ≤ now)

/-- The next period. -/
def advance (c : Clock α) : Clock α := { c with next := c.next + c.period }

/-- Starts over. -/
def reset (c : Clock α) (now : α) : Clock α := { c with next := now + c.period }

end Clock

end CapacityControl.Control
