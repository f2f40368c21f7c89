/-
  CapacityControl.Fuzzy.Error
  ───────────────────────────
  WHAT CAN GO WRONG in assembling or running an inference engine.
-/
import CapacityControl.Requirement
import CapacityControl.Fuzzy.RuleText.Fault

namespace CapacityControl.Fuzzy

/-- What an engine still lacks. -/
inductive Missing where
  | inputs
  | outputs
  | rules
  deriving DecidableEq, Repr

/-- How a message names what is missing. -/
def Missing.text : Missing → String
  | inputs => "no input variables"
  | outputs => "no output variables"
  | rules => "no rules"

/-- Why an engine refuses. -/
inductive Error (α : Type) where
  | violated (requirement : Requirement)
  | duplicateVariable (name : String)
  | unknownVariable (name : String)
  /-- The text is no rule of this engine. -/
  | unreadable (rule : String) (fault : RuleText.Fault α)
  /-- An input is infinite or undefined when inference begins. -/
  | notFiniteInput (input : String) (value : α)
  | notReady (missing : Missing)

/-- The message of an error. -/
def Error.message {α : Type} [Scalar α] : Error α → String
  | violated r => r.message
  | duplicateVariable n => "Duplicate variable: " ++ n
  | unknownVariable n => "Unknown variable: " ++ n
  | unreadable rule fault => "Cannot parse rule '" ++ rule ++ "': " ++ fault.text
  | notFiniteInput n v => "Non-finite input value for " ++ n ++ ": " ++ Scalar.text v
  | notReady m => "Engine not ready: " ++ m.text

end CapacityControl.Fuzzy
