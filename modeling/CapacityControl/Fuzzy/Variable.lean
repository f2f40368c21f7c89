/-
  CapacityControl.Fuzzy.Variable
  ──────────────────────────────
  LINGUISTIC VARIABLES.  An input carries a crisp value, which its terms turn into
  degrees; an output collects the terms that rules activate and turns them back into a
  crisp value.
-/
import CapacityControl.Fuzzy.Term
import CapacityControl.Fuzzy.Norm
import CapacityControl.Fuzzy.Centroid

namespace CapacityControl.Fuzzy

variable {α : Type} [Scalar α]

/-- Accepts a range of numbers that is not empty. -/
def checkRange (minimum maximum : α) : Except Requirement Unit :=
  if Scalar.isFinite minimum && Scalar.isFinite maximum && decide (minimum < maximum) then .ok ()
  else .error .variableRange

/-! ## §1. Inputs. -/

/-- An input variable.  Its value is undefined until it is set, and may lie outside the
range: the terms saturate. -/
structure Input (α : Type) where
  name : String
  minimum : α
  maximum : α
  terms : List (Term α)
  value : α

namespace Input

/-- An input without terms; the name is looked at before the range. -/
def new (name : String) (minimum maximum : α) : Except Requirement (Input α) := do
  let name ← checkName name
  checkRange minimum maximum
  pure ⟨name, minimum, maximum, [], Scalar.nan⟩

/-- Adds a term; an earlier term of the same name goes first in look-ups. -/
def withTerm (v : Input α) (t : Term α) : Input α := { v with terms := v.terms ++ [t] }

/-- The degree to which the value belongs to the term at an index. -/
def membership (v : Input α) (index : Nat) : α := membershipAt v.terms index v.value

/-- Whether the value is a number. -/
def isSet (v : Input α) : Bool := Scalar.isFinite v.value

end Input

/-! ## §2. Outputs. -/

/-- A term of an output that a rule activated to a degree. -/
structure Activation (α : Type) where
  term : Nat
  degree : α
  implication : TNorm

/-- An output variable with the activations of the last inference and its result. -/
structure Output (α : Type) where
  name : String
  minimum : α
  maximum : α
  terms : List (Term α)
  aggregation : SNorm
  centroid : Centroid
  fallback : α
  activations : List (Activation α)
  value : α

namespace Output

/-- An output without terms, aggregating by the maximum, undefined if nothing fires; the
name is looked at before the range. -/
def new (name : String) (minimum maximum : α) : Except Requirement (Output α) := do
  let name ← checkName name
  checkRange minimum maximum
  pure {
    name := name, minimum := minimum, maximum := maximum, terms := []
    aggregation := .maximum, centroid := .standard, fallback := Scalar.nan
    activations := [], value := Scalar.nan }

/-- Adds a term; an earlier term of the same name goes first in look-ups. -/
def withTerm (v : Output α) (t : Term α) : Output α := { v with terms := v.terms ++ [t] }

/-- Whether the last inference activated any term. -/
def isActivated (v : Output α) : Bool := !v.activations.isEmpty

/-- The degree of `x` in an activated term. -/
def impliedMembership (terms : List (Term α)) (x : α) (a : Activation α) : α :=
  a.implication.apply a.degree (membershipAt terms a.term x)

/-- The degree of `x` in the union of the activated terms. -/
def aggregated (v : Output α) (x : α) : α :=
  v.activations.foldl
    (fun degree a => v.aggregation.apply degree (impliedMembership v.terms x a)) 0.0

/-- The output with its value read off its activations. -/
def defuzzified (v : Output α) : Output α :=
  { v with
    value := if v.activations.isEmpty then v.fallback
      else v.centroid.centre v.aggregated v.minimum v.maximum }

/-- The output without activations and without value. -/
def cleared (v : Output α) : Output α := { v with activations := [], value := Scalar.nan }

end Output

end CapacityControl.Fuzzy
