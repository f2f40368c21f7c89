/-
  CapacityControl.Stats.Quantile
  ──────────────────────────────
  SAMPLE QUANTILES.  The quantile of a batch at probability `p` lies at rank
  `(n - 1) · p` of the sorted batch; between two ranks it is interpolated linearly.
-/
import CapacityControl.Scalar

namespace CapacityControl.Stats

variable {α : Type} [Scalar α]

/-- The batch in ascending order, undefined values last. -/
def sorted (data : List α) : List α := data.mergeSort Scalar.sortsBefore

/-- **The sample quantile.**  There is none of an empty batch or at a probability outside
`[0, 1]`. -/
def sampleQuantile? (data : List α) (probability : α) : Option α :=
  if data.isEmpty || !Scalar.inUnit probability then none
  else
    let ordered := sorted data
    let rank := Scalar.ofNat (ordered.length - 1) * probability
    let low := Scalar.floor rank
    let fraction := rank - Scalar.ofNat low
    match ordered[low]?, ordered[Scalar.ceil rank]? with
    | some a, some b => some (a + fraction * (b - a))
    | _, _ => none

end CapacityControl.Stats
