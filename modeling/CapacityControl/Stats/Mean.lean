/-
  CapacityControl.Stats.Mean
  ──────────────────────────
  THE RUNNING MEAN.  Each sample moves the mean by its distance divided by the new
  count, so the accumulator stays as small as the samples however long the run is.
-/
import CapacityControl.Scalar

namespace CapacityControl.Stats

variable {α : Type} [Scalar α]

/-- The number of samples and their mean. -/
structure RunningMean (α : Type) where
  count : Nat
  mean : α

namespace RunningMean

/-- No samples. -/
def empty : RunningMean α := ⟨0, 0.0⟩

/-- Takes in one sample. -/
def collect (m : RunningMean α) (value : α) : RunningMean α :=
  ⟨m.count + 1, m.mean + (value - m.mean) / Scalar.ofNat (m.count + 1)⟩

/-- The mean, if there is any sample. -/
def estimate? (m : RunningMean α) : Option α := if 0 < m.count then some m.mean else none

end RunningMean

end CapacityControl.Stats
