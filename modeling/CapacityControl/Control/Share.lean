/-
  CapacityControl.Control.Share
  ─────────────────────────────
  SHARES are fractions of what a machine can get at most.  A recommended change is added
  to the share and the sum limited to `[0, 1]`; a change that leaves the share where it
  is, up to rounding, is not sent at all.
-/
import CapacityControl.Requirement

namespace CapacityControl.Control

variable {α : Type} [Scalar α]

/-- Accepts the values of `[0, 1]` only. -/
def checkShare (share : α) : Except Requirement α :=
  if Scalar.inUnit share then .ok share else .error .share

/-- **The share to send** for a change of the old one, if any. -/
def nextShare (old delta : α) : Option α :=
  let new := Scalar.clampUnit (old + delta)
  if !Scalar.isFinite new || Scalar.nearlyEqual .standard old new then none else some new

end CapacityControl.Control
