/-
  CapacityControl.Control.Surface
  ───────────────────────────────
  THE CONTROL SURFACE.  From the residual of a resource (its share less its smoothed
  utilisation) and the relative error of the application, the rule base recommends a
  change of the share:

      residual \ error │ LOW │ FINE │ HIGH
      ─────────────────┼─────┼──────┼─────
      NEG              │ BUP │ UP   │ UP
      OK               │ UP  │ STY  │ DWN
      POS              │ STY │ DWN  │ BDW

  Both resources use the same table, each with a residual and a change of its own.
-/
import CapacityControl.Fuzzy.Engine
import CapacityControl.Metric

namespace CapacityControl.Control

open Fuzzy

variable {α : Type} [Scalar α]

/-! ## §1. Words of the rule base. -/

/-- How much of a share is left over. -/
inductive ResidualTerm where
  | negative
  | adequate
  | positive
  deriving DecidableEq, Repr

/-- How the application does against its target. -/
inductive ErrorTerm where
  | low
  | fine
  | high
  deriving DecidableEq, Repr

/-- How a share is to change. -/
inductive DeltaTerm where
  | bigDown
  | down
  | stay
  | up
  | bigUp
  deriving DecidableEq, Repr

namespace ResidualTerm

/-- Every term, in order. -/
def all : List ResidualTerm := [negative, adequate, positive]

/-- The name of a term. -/
def name : ResidualTerm → String
  | negative => "NEG"
  | adequate => "OK"
  | positive => "POS"

/-- The fuzzy set of a term. -/
def shape : ResidualTerm → Shape α
  | negative => .ramp 0.30 0.00
  | adequate => .triangle 0.10 0.25 0.40
  | positive => .ramp 0.30 1.00

end ResidualTerm

namespace ErrorTerm

/-- Every term, in order. -/
def all : List ErrorTerm := [low, fine, high]

/-- The name of a term. -/
def name : ErrorTerm → String
  | low => "LOW"
  | fine => "FINE"
  | high => "HIGH"

/-- The fuzzy set of a term. -/
def shape : ErrorTerm → Shape α
  | low => .ramp 0.20 (-0.40)
  | fine => .triangle 0.10 0.20 0.30
  | high => .ramp 0.30 1.00

end ErrorTerm

namespace DeltaTerm

/-- Every term, in order. -/
def all : List DeltaTerm := [bigDown, down, stay, up, bigUp]

/-- The name of a term. -/
def name : DeltaTerm → String
  | bigDown => "BDW"
  | down => "DWN"
  | stay => "STY"
  | up => "UP"
  | bigUp => "BUP"

/-- The fuzzy set of a term. -/
def shape : DeltaTerm → Shape α
  | bigDown => .triangle (-1.00) (-0.55) (-0.10)
  | down => .triangle (-0.20) (-0.125) (-0.05)
  | stay => .triangle (-0.10) 0.00 0.10
  | up => .triangle 0.05 0.125 0.20
  | bigUp => .triangle 0.10 0.55 1.00

end DeltaTerm

/-- **The rule table**: what is recommended for a residual and an error. -/
def recommended : ResidualTerm → ErrorTerm → DeltaTerm
  | .negative, .low => .bigUp
  | .negative, .fine => .up
  | .negative, .high => .up
  | .adequate, .low => .up
  | .adequate, .fine => .stay
  | .adequate, .high => .down
  | .positive, .low => .stay
  | .positive, .fine => .down
  | .positive, .high => .bigDown

/-! ## §2. Variables. -/

/-- The name of the relative error. -/
def errorName : String := "E"

/-- The name of the residual of a resource. -/
def residualName : Resource → String
  | .cpu => "Cres"
  | .memory => "Mres"

/-- The name of the change of a share. -/
def deltaName : Resource → String
  | .cpu => "DeltaC"
  | .memory => "DeltaM"

/-- The residual of a resource as an input. -/
def residualInput (r : Resource) : Input α :=
  ⟨residualName r, 0.0, 1.0, ResidualTerm.all.map fun t => ⟨t.name, t.shape⟩, Scalar.nan⟩

/-- The relative error as an input. -/
def errorInput : Input α :=
  ⟨errorName, -1.0, 1.0, ErrorTerm.all.map fun t => ⟨t.name, t.shape⟩, Scalar.nan⟩

/-- The change of a share as an output; overlapping recommendations add up, and without any
there is no change to report. -/
def deltaOutput (r : Resource) : Output α where
  name := deltaName r
  minimum := -1.0
  maximum := 1.0
  terms := DeltaTerm.all.map fun t => ⟨t.name, t.shape⟩
  aggregation := .algebraicSum
  centroid := .standard
  fallback := Scalar.nan
  activations := []
  value := Scalar.nan

/-! ## §3. Rules. -/

/-- The place of a residual among the inputs, and of a change among the outputs. -/
def resourceIndex : Resource → Nat
  | .cpu => 0
  | .memory => 1

/-- The place of the error among the inputs. -/
def errorIndex : Nat := 2

/-- The text of the rule for a cell of the table. -/
def ruleText (r : Resource) (residual : ResidualTerm) (error : ErrorTerm) : String :=
  "if " ++ residualName r ++ " is " ++ residual.name ++ " and " ++ errorName ++ " is " ++
    error.name ++ " then " ++ deltaName r ++ " is " ++ (recommended residual error).name

/-- The rule for a cell of the table. -/
def surfaceRule (r : Resource) (residual : ResidualTerm) (error : ErrorTerm) : Rule α where
  text := ruleText r residual error
  condition :=
    .and (.prop ⟨resourceIndex r, ResidualTerm.all.idxOf residual, false⟩)
      (.prop ⟨errorIndex, ErrorTerm.all.idxOf error, false⟩)
  consequents := [⟨resourceIndex r, DeltaTerm.all.idxOf (recommended residual error), false⟩]
  weight := 1.0

/-- The rules, row by row, first for the processor and then for the memory. -/
def surfaceRules : List (Rule α) :=
  Resource.all.flatMap fun r =>
    ResidualTerm.all.flatMap fun residual =>
      ErrorTerm.all.map fun error => surfaceRule r residual error

/-- **The engine of the control surface.** -/
def surface : Engine α where
  name := "fc2q"
  inputs := [residualInput .cpu, residualInput .memory, errorInput]
  outputs := [deltaOutput .cpu, deltaOutput .memory]
  blocks := [{ (RuleBlock.new "capacity" : RuleBlock α) with rules := surfaceRules }]

/-! ## §4. Responses. -/

/-- The engine restarted and fed with residuals and error. -/
def feed (e : Engine α) (residuals : PerResource α) (error : α) :
    Except (Fuzzy.Error α) (Engine α) := do
  let e ← e.restart.setInput (residualName .cpu) residuals.cpu
  let e ← e.setInput (residualName .memory) residuals.memory
  e.setInput errorName error

/-- One inference from scratch: the engine is restarted, fed and run. -/
def respond (e : Engine α) (residuals : PerResource α) (error : α) :
    Except (Fuzzy.Error α) (Engine α) := do
  let e ← feed e residuals error
  e.process

/-- The change of a share that an inference came to; undefined without such an output. -/
def delta (e : Engine α) (r : Resource) : α :=
  match e.output? (deltaName r) with
  | some v => v.value
  | none => Scalar.nan

end CapacityControl.Control
