/-
  CapacityControl.Fuzzy.Centroid
  ──────────────────────────────
  CENTROIDS.  The crisp value of a fuzzy set is its centre of mass, integrated by the
  midpoint rule over equally wide cells of the universe.
-/
import CapacityControl.Requirement

namespace CapacityControl.Fuzzy

variable {α : Type} [Scalar α]

/-- The number of cells of the midpoint rule. -/
structure Centroid where
  resolution : Nat
  deriving DecidableEq, Repr

namespace Centroid

/-- The usual resolution. -/
def standard : Centroid := ⟨200⟩

/-- A centroid over at least one cell. -/
def new (resolution : Nat) : Except Requirement Centroid :=
  if resolution = 0 then .error .centroidResolution else .ok ⟨resolution⟩

/-- The width of a cell of `[minimum, maximum]`. -/
def cellWidth (c : Centroid) (minimum maximum : α) : α :=
  (maximum - minimum) / Scalar.ofNat c.resolution

/-- The midpoint of the `i`-th cell of width `width` from `minimum` on. -/
def midpoint (minimum width : α) (i : Nat) : α := minimum + (Scalar.ofNat i + 0.5) * width

/-- Moment and area over the first `n` cells. -/
def integrate (membership : α → α) (minimum width : α) (n : Nat) : α × α :=
  n.fold (fun i _ (moment, area) =>
    let x := midpoint minimum width i
    let y := membership x
    (moment + x * y, area + y)) (0.0, 0.0)

/-- **The centre of mass** of a membership function over `[minimum, maximum]`; undefined if
it has no mass. -/
def centre (c : Centroid) (membership : α → α) (minimum maximum : α) : α :=
  let (moment, area) := integrate membership minimum (c.cellWidth minimum maximum) c.resolution
  if area == 0.0 then Scalar.nan else moment / area

end Centroid

end CapacityControl.Fuzzy
