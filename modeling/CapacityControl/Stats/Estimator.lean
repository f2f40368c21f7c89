/-
  CapacityControl.Stats.Estimator
  ───────────────────────────────
  ESTIMATORS reduce the samples collected since their last reset to one number.  Which
  number is the estimator's kind: the mean or a quantile.
-/
import CapacityControl.Stats.Mean
import CapacityControl.Stats.Markers

namespace CapacityControl.Stats

variable {α : Type} [Scalar α]

/-! ## §1. Kinds. -/

/-- What is estimated. -/
inductive EstimatorKind (α : Type) where
  | mean
  | quantile (probability : α)
  deriving BEq

/-! ## §2. Estimators. -/

/-- An estimator with what it has accumulated. -/
inductive Estimator (α : Type) where
  | mean (state : RunningMean α)
  | quantile (state : QuantileEstimator α)

/-- A fresh estimator of the kind; a quantile needs a probability in `(0, 1)`. -/
def EstimatorKind.build : EstimatorKind α → Except Requirement (Estimator α)
  | .mean => .ok (.mean .empty)
  | .quantile p => (QuantileEstimator.new p).map .quantile

namespace Estimator

/-- Takes in one sample. -/
def collect (e : Estimator α) (value : α) : Estimator α :=
  match e with
  | mean s => mean (s.collect value)
  | quantile s => quantile (s.collect value)

/-- Takes in a batch, in order. -/
def collectMany (e : Estimator α) (values : List α) : Estimator α := values.foldl collect e

/-- The number of samples since the last reset. -/
def count : Estimator α → Nat
  | mean s => s.count
  | quantile s => s.count

/-- The estimate, if there is any sample. -/
def estimate? : Estimator α → Option α
  | mean s => s.estimate?
  | quantile s => s.estimate?

/-- Forgets every sample. -/
def reset : Estimator α → Estimator α
  | mean _ => mean .empty
  | quantile s => quantile s.reset

/-- What is estimated. -/
def kind : Estimator α → EstimatorKind α
  | mean _ => .mean
  | quantile s => .quantile s.probability

/-- The probability of a quantile. -/
def probability? : Estimator α → Option α
  | mean _ => none
  | quantile s => some s.probability

end Estimator

end CapacityControl.Stats
