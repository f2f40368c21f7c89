/-
  CapacityControl.Control.Pacer
  ─────────────────────────────
  SIMULATED TIME.  A pacer walks a virtual clock and tells which calls are due until a
  given time: a sample at the end of every sampling period, a control at the end of every
  control period, and the sample first where both end together.
-/
import CapacityControl.Control.Intervals

namespace CapacityControl.Control

variable {α : Type} [Scalar α]

/-! ## §1. Pacers. -/

/-- A call that is due at a time. -/
inductive Call (α : Type) where
  | sample (time : α)
  | control (time : α)

/-- The time, and the clocks of both periods. -/
structure Pacer (α : Type) where
  now : α
  sampling : Clock α
  control : Clock α

namespace Pacer

/-- A pacer at time zero. -/
def new (i : Intervals α) : Pacer α := ⟨0.0, .new i.sampling 0.0, .new i.control 0.0⟩

/-- The time of the next call. -/
def next (p : Pacer α) : α :=
  if p.sampling.next ≤ p.control.next then p.sampling.next else p.control.next

/-- The calls that are due next. -/
def due (p : Pacer α) : List (Call α) :=
  (if p.sampling.isDue p.next then [.sample p.next] else []) ++
    (if p.control.isDue p.next then [.control p.next] else [])

/-- The pacer after those calls. -/
def advance (p : Pacer α) : Pacer α :=
  let time := p.next
  { now := time
    sampling := if p.sampling.isDue time then p.sampling.advance else p.sampling
    control := if p.control.isDue time then p.control.advance else p.control }

/-! ## §2. Running. -/

/-- The calls until a time, in at most `fuel` turns, and the pacer after them. -/
def run (stop : α) : Nat → Pacer α → List (Call α) × Pacer α
  | 0, p => ([], { p with now := stop })
  | fuel + 1, p =>
    if stop < p.next then ([], { p with now := stop })
    else
      let (calls, last) := run stop fuel p.advance
      (p.due ++ calls, last)

/-- How often a clock is due until a time. -/
def dueCount (c : Clock α) (stop : α) : Nat := Scalar.floor ((stop - c.next) / c.period) + 1

/-- More turns than there are until a time, also if the times are rounded. -/
def turns (p : Pacer α) (stop : α) : Nat :=
  2 * (dueCount p.sampling stop + dueCount p.control stop) + 1

/-- **The calls that are due until a time**, in order, and the pacer at that time. -/
def runUntil (p : Pacer α) (stop : α) : List (Call α) × Pacer α :=
  run stop (p.turns stop) p

end Pacer

end CapacityControl.Control
