/-
  CapacityControl.Control.Warning
  ───────────────────────────────
  WARNINGS.  The loop goes on when a sensor or a machine fails, and says so.  A warning
  is a cause; `Warning.message` and `Warning.details` word it.
-/
import CapacityControl.Control.Sensor

namespace CapacityControl.Control

variable {α : Type}

/-- What the loop goes on in spite of. -/
inductive Warning (α : Type) where
  /-- The sensor of a metric or resource, by its name, was not read or not wholly read. -/
  | poll (sensor : String) (fault : PollFault)
  | updateFailed (machine : String) (resource : Resource) (cause : Error α)
  | notApplied (cause : Error α)
  | rowLost (cause : Error α)

/-- One detail of a warning. -/
inductive Detail where
  | text (key value : String)
  | count (key : String) (value : Nat)
  deriving DecidableEq, Repr

namespace Warning

/-- What happened. -/
def message : Warning α → String
  | poll _ (.failed _) => "sensor poll failed, no observations this interval"
  | poll _ (.dropped _) => "dropped non-finite observations"
  | updateFailed .. => "share update failed"
  | notApplied _ => "control not applied: failed to compute the fuzzy control"
  | rowLost _ => "cannot write data log row"

/-- The message of a cause. -/
def causeText [Scalar α] (e : Error α) : Detail := .text "error" (e.message?.getD "")

/-- Where and why it happened. -/
def details [Scalar α] : Warning α → List Detail
  | poll sensor (.failed fault) => [.text "metric" sensor, causeText (.driver fault : Error α)]
  | poll sensor (.dropped count) => [.text "metric" sensor, .count "dropped" count]
  | updateFailed machine r cause =>
    [.text "vm" machine, .text "resource" r.name, causeText cause]
  | notApplied cause => [causeText cause]
  | rowLost cause => [causeText cause]

end Warning

/-- The warning of a read, if there is one. -/
def Poll.warnings (sensor : String) (p : Poll α) : List (Warning α) :=
  p.fault.toList.map (.poll sensor)

end CapacityControl.Control
