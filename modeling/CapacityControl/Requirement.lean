/-
  CapacityControl.Requirement
  ───────────────────────────
  WHAT ARGUMENTS HAVE TO SATISFY.  A constructor or setter that refuses its argument
  says which requirement is violated; `Requirement.text` is the only place where the
  requirements are worded.
-/
import CapacityControl.Scalar

namespace CapacityControl

/-! ## §1. Requirements. -/

/-- A condition that an argument has to meet. -/
inductive Requirement where
  /-- The argument called `label` is a positive number. -/
  | positive (label : String)
  | samplingTime
  | controlTime
  | quantileProbability
  | smoothingFactor
  | openSmoothingFactor
  | levelFactor
  | trendFactor
  | discountFactor
  | rampFinite
  | rampDistinct
  | triangleFinite
  | triangleOrdered
  | nameSpelling
  | nameReserved
  | variableRange
  | centroidResolution
  | ruleIndices
  | targetNonZero
  | share
  deriving DecidableEq, Repr

namespace Requirement

/-- The wording of a requirement. -/
def text : Requirement → String
  | positive label => label
  | samplingTime => "sampling time must be positive"
  | controlTime => "control time must be positive"
  | quantileProbability => "quantile probability must be in (0, 1)"
  | smoothingFactor => "smoothing factor must be in (0, 1]"
  | openSmoothingFactor => "smoothing factor must be in (0, 1)"
  | levelFactor => "level factor must be in (0, 1]"
  | trendFactor => "trend factor must be in (0, 1]"
  | discountFactor => "discount factor must be in (0, 1]"
  | rampFinite => "ramp breakpoints must be finite"
  | rampDistinct => "ramp start and end must differ"
  | triangleFinite => "triangle vertices must be finite"
  | triangleOrdered => "triangle vertices must satisfy a <= b <= c and a < c"
  | nameSpelling =>
    "names must start with a letter and contain only letters, digits, '_' or '.'"
  | nameReserved => "names must not be rule keywords"
  | variableRange => "variable range must be finite with minimum < maximum"
  | centroidResolution => "centroid resolution must be positive"
  | ruleIndices => "rule refers to variables or terms outside this engine"
  | targetNonZero => "target value must be non-zero"
  | share => "share must be in [0, 1]"

/-- The message of a refused argument. -/
def message (r : Requirement) : String := "Invalid argument: " ++ r.text

end Requirement

/-! ## §2. Checks. -/

/-- Why a single value is refused. -/
inductive ValueError (α : Type) where
  /-- The value of `what` is infinite or undefined. -/
  | notFinite (what : String) (value : α)
  | violated (requirement : Requirement)
  /-- No performance category has this name. -/
  | unknownCategory (name : String)

/-- The message of a refused value. -/
def ValueError.message {α : Type} [Scalar α] : ValueError α → String
  | notFinite what value => "Non-finite numeric value for " ++ what ++ ": " ++ Scalar.text value
  | violated r => r.message
  | unknownCategory name => "Unknown category: " ++ name

variable {α : Type} [Scalar α]

/-- Accepts numbers only. -/
def ensureFinite (what : String) (value : α) : Except (ValueError α) α :=
  if Scalar.isFinite value then .ok value else .error (.notFinite what value)

/-- Accepts positive numbers only. -/
def ensurePositive (r : Requirement) (value : α) : Except Requirement α :=
  if Scalar.isFinite value && decide (0.0 < value) then .ok value else .error r

/-- Accepts the values of `(0, 1]` only. -/
def ensureFactor (r : Requirement) (value : α) : Except Requirement α :=
  if 0.0 < value ∧ value ≤ 1.0 then .ok value else .error r

/-- Accepts the values of `(0, 1)` only. -/
def ensureInterior (r : Requirement) (value : α) : Except Requirement α :=
  if 0.0 < value ∧ value < 1.0 then .ok value else .error r

end CapacityControl
