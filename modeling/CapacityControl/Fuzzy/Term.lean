/-
  CapacityControl.Fuzzy.Term
  ──────────────────────────
  LINGUISTIC TERMS: named fuzzy sets over the universe of a variable.  The degree of
  membership of an undefined value is undefined, so that a missing value is never taken
  for one that does not belong.
-/
import CapacityControl.Fuzzy.Name

namespace CapacityControl.Fuzzy

variable {α : Type} [Scalar α]

/-! ## §1. Shapes. -/

/-- The shape of a membership function. -/
inductive Shape (α : Type) where
  /-- Degree 0 up to `start` and 1 from `stop` on, linear between; falling if `stop` lies
  below `start`. -/
  | ramp (start stop : α)
  /-- Degree 0 at the feet `left` and `right`, 1 at `apex`, linear between. -/
  | triangle (left apex right : α)

namespace Shape

/-- The degree on a rising or falling edge. -/
def rampDegree (start stop x : α) : α :=
  if start < stop then
    if x ≤ start then 0.0 else if stop ≤ x then 1.0 else (x - start) / (stop - start)
  else if start ≤ x then 0.0
  else if x ≤ stop then 1.0
  else (start - x) / (start - stop)

/-- The degree on a triangle. -/
def triangleDegree (left apex right x : α) : α :=
  if x < left ∨ right < x then 0.0
  else if x == apex then 1.0
  else if x < apex then (x - left) / (apex - left)
  else (right - x) / (right - apex)

/-- **The degree of membership** of `x`. -/
def membership (s : Shape α) (x : α) : α :=
  if Scalar.isNaN x then Scalar.nan
  else match s with
    | ramp start stop => rampDegree start stop x
    | triangle left apex right => triangleDegree left apex right x

/-- Accepts ramps with two different ends and triangles whose vertices are in order and
span an interval. -/
def check : Shape α → Except Requirement (Shape α)
  | ramp start stop =>
    if !(Scalar.isFinite start && Scalar.isFinite stop) then .error .rampFinite
    else if start == stop then .error .rampDistinct
    else .ok (ramp start stop)
  | triangle left apex right =>
    if !(Scalar.isFinite left && Scalar.isFinite apex && Scalar.isFinite right) then
      .error .triangleFinite
    else if left ≤ apex ∧ apex ≤ right ∧ left < right then .ok (triangle left apex right)
    else .error .triangleOrdered

end Shape

/-! ## §2. Terms. -/

/-- A named fuzzy set. -/
structure Term (α : Type) where
  name : String
  shape : Shape α

namespace Term

/-- A term with a proper name and a proper shape; the name is looked at first. -/
def new (name : String) (shape : Shape α) : Except Requirement (Term α) := do
  let name ← checkName name
  let shape ← shape.check
  pure ⟨name, shape⟩

/-- The degree of membership of `x`. -/
def membership (t : Term α) (x : α) : α := t.shape.membership x

end Term

/-- The degree to which `x` belongs to the term at an index; undefined if there is none. -/
def membershipAt (terms : List (Term α)) (index : Nat) (x : α) : α :=
  match terms[index]? with
  | some t => t.membership x
  | none => Scalar.nan

/-- The term of that name; of several the first. -/
def termNamed? (terms : List (Term α)) (name : String) : Option (Term α) :=
  terms.find? (·.name == name)

end CapacityControl.Fuzzy
