/-
  CapacityControl.Fuzzy.Norm
  ──────────────────────────
  CONNECTIVES of degrees: norms for conjunction and implication, conorms for
  disjunction and aggregation.
-/
import CapacityControl.Scalar

namespace CapacityControl.Fuzzy

variable {α : Type} [Scalar α]

/-- A conjunction of degrees. -/
inductive TNorm where
  | minimum
  | algebraicProduct
  deriving DecidableEq, Repr

namespace TNorm

/-- The degree of `a` and `b` together. -/
def apply : TNorm → α → α → α
  | minimum, a, b => Scalar.min a b
  | algebraicProduct, a, b => a * b

/-- The name of a norm in documents. -/
def name : TNorm → String
  | minimum => "minimum"
  | algebraicProduct => "algebraic_product"

/-- The norm of that name. -/
def ofName? (s : String) : Option TNorm := [minimum, algebraicProduct].find? (·.name == s)

end TNorm

/-- A disjunction of degrees. -/
inductive SNorm where
  | maximum
  | algebraicSum
  deriving DecidableEq, Repr

namespace SNorm

/-- The degree of `a` or `b`. -/
def apply : SNorm → α → α → α
  | maximum, a, b => Scalar.max a b
  | algebraicSum, a, b => a + b - a * b

/-- The name of a conorm in documents. -/
def name : SNorm → String
  | maximum => "maximum"
  | algebraicSum => "algebraic_sum"

/-- The conorm of that name. -/
def ofName? (s : String) : Option SNorm := [maximum, algebraicSum].find? (·.name == s)

end SNorm

end CapacityControl.Fuzzy
