/-
  CapacityControl.Control.Error
  ─────────────────────────────
  WHAT CAN GO WRONG in the control loop.  Each error is a cause with the values that
  explain it; `Error.message?` words it.
-/
import CapacityControl.Fuzzy.Error
import CapacityControl.Log.DataLog
import CapacityControl.Metric

namespace CapacityControl.Control

/-! ## §1. Causes. -/

/-- What a manager lacks to start a run. -/
inductive WiringFault where
  | noApplication
  | noTarget
  | noMetricSensor (metric : Metric)
  | noResourceSensor (machine : String) (resource : Resource)
  | unknownCategory (name : String)
  deriving DecidableEq, Repr

/-- The wording of what is lacking. -/
def WiringFault.text : WiringFault → String
  | noApplication => "no application is bound to the manager"
  | noTarget => "no target metric is set"
  | noMetricSensor m => "application has no " ++ m.name ++ " sensor"
  | noResourceSensor machine r => "VM " ++ machine ++ " has no " ++ r.name ++ " sensor"
  | unknownCategory name => "unknown performance category '" ++ name ++ "'"

/-- How a sensor or a machine fails. -/
inductive DriverFault where
  | sensorUnavailable
  | updateRefused (machine : String)
  deriving DecidableEq, Repr

/-- The wording of a failure. -/
def DriverFault.text : DriverFault → String
  | sensorUnavailable => "sensor unavailable"
  | updateRefused machine => "VM " ++ machine ++ " refused the share update"

/-- The formats of configuration files. -/
inductive DocumentFormat where
  | json
  | yaml
  deriving DecidableEq, Repr

/-! ## §2. Errors. -/

/-- Why an operation of the control loop refuses or fails. -/
inductive Error (α : Type) where
  | violated (requirement : Requirement)
  | notFinite (what : String) (value : α)
  | configuration (fault : WiringFault)
  | dataLog (path : String) (fault : Log.Fault)
  | inference (fault : Fuzzy.Error α)
  /-- The recommended change of a share is infinite or undefined. -/
  | notFiniteOutput (output machine : String) (value : α)
  | driver (fault : DriverFault)
  | file (fault : FileFault)
  /-- The text is no configuration in this format. -/
  | document (format : DocumentFormat)

namespace Error

variable {α : Type}

/-- A refused value as an error of the loop. -/
def ofValue : ValueError α → Error α
  | .notFinite what value => notFinite what value
  | .violated r => violated r
  | .unknownCategory name => configuration (.unknownCategory name)

/-- The message of an error; what is wrong with the text of a document is not worded here. -/
def message? [Scalar α] : Error α → Option String
  | violated r => some r.message
  | notFinite what value => some ("Non-finite value for " ++ what ++ ": " ++ Scalar.text value)
  | configuration fault => some ("Configuration error: " ++ fault.text)
  | dataLog path fault => some ("Data log error for '" ++ path ++ "': " ++ fault.text)
  | inference fault => some ("Inference error: " ++ fault.message)
  | notFiniteOutput output machine value =>
    some ("Non-finite " ++ output ++ " for VM " ++ machine ++ ": " ++ Scalar.text value)
  | driver fault => some ("Driver error: " ++ fault.text)
  | file fault => some ("I/O error: " ++ fault.text)
  | document _ => none

end Error

/-- The result of an operation that checks a requirement, as one of the control loop. -/
def required {α β : Type} (r : Except Requirement β) : Except (Error α) β := r.mapError .violated

end CapacityControl.Control
