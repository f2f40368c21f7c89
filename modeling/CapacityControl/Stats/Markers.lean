/-
  CapacityControl.Stats.Markers
  ─────────────────────────────
  A QUANTILE IN CONSTANT MEMORY.  Five markers stand at the least sample, near the
  quantiles `p/2`, `p`, `(1+p)/2`, and at the greatest sample.  Every sample pushes the
  markers above it one rank up; a marker between the ends that has drifted a whole rank
  from where it should stand, and has room to move, is moved by one rank, and its height
  follows the parabola through its neighbours, or the straight line to the neighbour on
  the side of the move where the parabola would leave the markers out of order.

  Until five samples are in there are no markers, and the estimate is the sample quantile.
-/
import CapacityControl.Requirement
import CapacityControl.Stats.Quantile

namespace CapacityControl.Stats

variable {α : Type} [Scalar α]

/-! ## §1. One marker. -/

/-- A marker: the height of the estimated distribution at a rank, that rank, and the rank
at which the marker should stand. -/
structure Marker (α : Type) where
  height : α
  position : α
  desired : α

namespace Marker

/-- One rank further up. -/
def raise (m : Marker α) : Marker α := { m with position := m.position + 1.0 }

/-- The desired rank moves by `step`. -/
def drift (m : Marker α) (step : α) : Marker α := { m with desired := m.desired + step }

/-- The height on the parabola through the marker and its neighbours, one rank in the
direction of `sign`. -/
def parabolic (sign : α) (left m right : Marker α) : α :=
  let slopeUp := (right.height - m.height) / (right.position - m.position)
  let slopeDown := (left.height - m.height) / (left.position - m.position)
  m.height + sign / (right.position - left.position) *
    ((m.position - left.position + sign) * slopeUp +
      (right.position - m.position - sign) * slopeDown)

/-- The height on the line to the neighbour `toward`, one rank in the direction of `sign`. -/
def linear (sign : α) (m toward : Marker α) : α :=
  m.height + sign * (toward.height - m.height) / (toward.position - m.position)

/-- The marker moved by one rank in the direction of `sign`. -/
def move (sign : α) (left m right : Marker α) : Marker α :=
  let candidate := parabolic sign left m right
  let height :=
    if left.height < candidate ∧ candidate < right.height then candidate
    else linear sign m (if 0.0 < sign then right else left)
  { m with height := height, position := m.position + sign }

/-- **One adjustment**: a marker at least one rank from where it should stand moves there by
one rank if that leaves a rank between it and its neighbour. -/
def adjust (left m right : Marker α) : Marker α :=
  let gap := m.desired - m.position
  let up := 1.0 ≤ gap ∧ 1.0 < right.position - m.position
  let down := gap ≤ -1.0 ∧ left.position - m.position < -1.0
  if up ∨ down then move (if 0.0 < gap then 1.0 else -1.0) left m right else m

end Marker

/-! ## §2. The five markers. -/

/-- The markers in ascending order. -/
structure Markers (α : Type) where
  lowest : Marker α
  lower : Marker α
  middle : Marker α
  upper : Marker α
  highest : Marker α

namespace Markers

/-- The markers over the first five samples, which are given in ascending order. -/
def start (p a b c d e : α) : Markers α :=
  ⟨⟨a, 1.0, 1.0⟩, ⟨b, 2.0, 1.0 + 2.0 * p⟩, ⟨c, 3.0, 1.0 + 4.0 * p⟩,
    ⟨d, 4.0, 3.0 + 2.0 * p⟩, ⟨e, 5.0, 5.0⟩⟩

/-- Stretches the outer markers so that they enclose the sample. -/
def enclose (m : Markers α) (value : α) : Markers α :=
  if value < m.lowest.height then { m with lowest := { m.lowest with height := value } }
  else if m.highest.height ≤ value then { m with highest := { m.highest with height := value } }
  else m

/-- Raises the markers above the sample.  The lowest marker always stays at rank one and
the highest always counts the samples. -/
def raiseAbove (m : Markers α) (value : α) : Markers α :=
  if value < m.lowest.height then
    { m with
      lower := m.lower.raise, middle := m.middle.raise, upper := m.upper.raise
      highest := m.highest.raise }
  else if m.highest.height ≤ value then { m with highest := m.highest.raise }
  else if value < m.lower.height then
    { m with
      lower := m.lower.raise, middle := m.middle.raise, upper := m.upper.raise
      highest := m.highest.raise }
  else if value < m.middle.height then
    { m with middle := m.middle.raise, upper := m.upper.raise, highest := m.highest.raise }
  else if value < m.upper.height then
    { m with upper := m.upper.raise, highest := m.highest.raise }
  else { m with highest := m.highest.raise }

/-- Moves the desired ranks on by one sample. -/
def drift (m : Markers α) (p : α) : Markers α :=
  ⟨m.lowest.drift 0.0, m.lower.drift (p / 2.0), m.middle.drift p,
    m.upper.drift ((1.0 + p) / 2.0), m.highest.drift 1.0⟩

/-- Adjusts the three inner markers from the left to the right. -/
def adjust (m : Markers α) : Markers α :=
  let lower := Marker.adjust m.lowest m.lower m.middle
  let middle := Marker.adjust lower m.middle m.upper
  let upper := Marker.adjust middle m.upper m.highest
  { m with lower := lower, middle := middle, upper := upper }

/-- **One sample**: the ranks of the markers above it rise, the ends enclose it, and the
inner markers are adjusted to the new desired ranks. -/
def collect (p : α) (m : Markers α) (value : α) : Markers α :=
  (((m.raiseAbove value).enclose value).drift p).adjust

end Markers

/-! ## §3. The estimator. -/

/-- How far an estimation has come: the first samples in the order they came, or a count of
samples and the markers. -/
inductive Progress (α : Type) where
  | gathering (samples : List α)
  | tracking (count : Nat) (markers : Markers α)

/-- An estimator of the quantile at a probability. -/
structure QuantileEstimator (α : Type) where
  probability : α
  progress : Progress α

namespace QuantileEstimator

/-- An estimator without samples.  The probability has to lie in `(0, 1)`. -/
def new (probability : α) : Except Requirement (QuantileEstimator α) :=
  (ensureInterior .quantileProbability probability).map fun p => ⟨p, .gathering []⟩

/-- Takes in one sample. -/
def collect (q : QuantileEstimator α) (value : α) : QuantileEstimator α :=
  match q.progress with
  | .gathering samples =>
    let samples := samples ++ [value]
    match samples.length, sorted samples with
    | 5, [a, b, c, d, e] =>
      { q with progress := .tracking 5 (Markers.start q.probability a b c d e) }
    | _, _ => { q with progress := .gathering samples }
  | .tracking count markers =>
    { q with progress := .tracking (count + 1) (markers.collect q.probability value) }

/-- The number of samples. -/
def count (q : QuantileEstimator α) : Nat :=
  match q.progress with
  | .gathering samples => samples.length
  | .tracking count _ => count

/-- The estimate, if there is any sample. -/
def estimate? (q : QuantileEstimator α) : Option α :=
  match q.progress with
  | .gathering samples => sampleQuantile? samples q.probability
  | .tracking _ markers => some markers.middle.height

/-- Forgets every sample. -/
def reset (q : QuantileEstimator α) : QuantileEstimator α := { q with progress := .gathering [] }

end QuantileEstimator

end CapacityControl.Stats
