/-
  CapacityControl.Control.Sensor
  ──────────────────────────────
  SENSORS deliver readings.  A reading waits until the sensor is polled; a poll moves all
  waiting readings to those that can be drained, unless the sensor fails, which it does
  once each time it is told to.  `Sensor.read` polls and drains at once and keeps only
  the readings that are numbers.
-/
import CapacityControl.Control.Error

namespace CapacityControl.Control

variable {α : Type}

/-! ## §1. Sensors. -/

/-- A labelled observation. -/
structure Reading (α : Type) where
  label : String
  value : α

/-- A sensor: readings that wait for a poll, readings that were polled, and whether the next
poll fails. -/
structure Sensor (α : Type) where
  pending : List (Reading α)
  sensed : List (Reading α)
  failsNext : Bool

namespace Sensor

/-- A sensor without readings. -/
def empty : Sensor α := ⟨[], [], false⟩

/-- Adds a reading that waits for the next poll. -/
def push (s : Sensor α) (reading : Reading α) : Sensor α :=
  { s with pending := s.pending ++ [reading] }

/-- Lets the next poll fail. -/
def failNext (s : Sensor α) : Sensor α := { s with failsNext := true }

/-- Polls the sensor.  A poll that fails moves nothing, and the next one works again. -/
def sense (s : Sensor α) : Except DriverFault Unit × Sensor α :=
  if s.failsNext then (.error .sensorUnavailable, { s with failsNext := false })
  else (.ok (), { s with pending := [], sensed := s.sensed ++ s.pending })

/-- Whether polled readings can be drained. -/
def hasReadings (s : Sensor α) : Bool := !s.sensed.isEmpty

/-- Drains the polled readings, oldest first. -/
def drain (s : Sensor α) : List (Reading α) × Sensor α := (s.sensed, { s with sensed := [] })

/-- The readings that were pushed and not drained yet, oldest first. -/
def held (s : Sensor α) : List (Reading α) := s.sensed ++ s.pending

theorem held_push (s : Sensor α) (r : Reading α) : (s.push r).held = s.held ++ [r] := by
  simp [held, push]

theorem held_failNext (s : Sensor α) : s.failNext.held = s.held := rfl

/-- A poll loses nothing, whether it fails or not. -/
theorem held_sense (s : Sensor α) : s.sense.2.held = s.held := by
  by_cases h : s.failsNext = true <;> simp [sense, held, h]

/-- A drained reading is no longer held, and the others are. -/
theorem drain_append_held (s : Sensor α) : s.drain.1 ++ s.drain.2.held = s.held := by
  simp [drain, held]

end Sensor

/-! ## §2. Reading a sensor. -/

/-- What went wrong while a sensor was read. -/
inductive PollFault where
  | failed (fault : DriverFault)
  /-- So many readings were no numbers. -/
  | dropped (count : Nat)
  deriving DecidableEq, Repr

/-- What reading a sensor yields. -/
structure Poll (α : Type) where
  readings : List (Reading α)
  fault : Option PollFault

namespace Poll

/-- Keeps the readings that are numbers. -/
def ofReadings [Scalar α] (readings : List (Reading α)) : Poll α :=
  let kept := readings.filter (Scalar.isFinite ·.value)
  ⟨kept, if kept.length < readings.length then some (.dropped (readings.length - kept.length))
    else none⟩

/-- The values of the readings. -/
def values (p : Poll α) : List α := p.readings.map (·.value)

end Poll

/-- **Polls and drains.**  A poll that fails yields nothing. -/
def Sensor.read [Scalar α] (s : Sensor α) : Poll α × Sensor α :=
  match s.sense with
  | (.error fault, s) => (⟨[], some (.failed fault)⟩, s)
  | (.ok (), s) =>
    let (readings, s) := s.drain
    (.ofReadings readings, s)

end CapacityControl.Control
