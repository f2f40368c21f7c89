/-
  CapacityControl.Proofs.Control.Delivery
  ───────────────────────────────────────
  A SENSOR DELIVERS EVERY READING ONCE, IN ORDER, whatever is called on it and when.  What
  has been drained, followed by what was polled and by what still waits, is what was pushed
  (`Sensor.drainedIn_append_held`); a poll fails exactly if it is the first after the sensor was
  told to fail (`Sensor.failsNext_iff_armed`), and then it moves nothing.  `sensor_delivers` puts
  this together, with what reading the sensor yields.
-/
import CapacityControl.Proofs.Control.Draining

namespace CapacityControl.Control

variable {α : Type} [Scalar α]

/-! ## §1. Calls. -/

/-- What is called on a sensor. -/
inductive SensorCall (α : Type) where
  | push (reading : Reading α)
  | failNext
  | sense
  | drain
  | read

namespace SensorCall

/-- Whether the call polls the sensor. -/
def polls : SensorCall α → Bool
  | sense | read => true
  | _ => false

/-- The readings that a call pushes. -/
def pushed : SensorCall α → List (Reading α)
  | push reading => [reading]
  | _ => []

/-- **The next poll is to fail**: since the sensor was told so, none has come. -/
def Armed (calls : List (SensorCall α)) : Prop :=
  ∃ before later, calls = before ++ .failNext :: later ∧ ∀ c ∈ later, c.polls = false

omit [Scalar α] in
theorem not_armed_nil : ¬ Armed ([] : List (SensorCall α)) := by
  rintro ⟨before, later, hcalls, _⟩
  simp at hcalls

omit [Scalar α] in
/-- The last call tells the sensor to fail, or it does not poll and was told before. -/
theorem armed_concat (calls : List (SensorCall α)) (c : SensorCall α) :
    Armed (calls ++ [c]) ↔ c = .failNext ∨ (c.polls = false ∧ Armed calls) := by
  constructor
  · rintro ⟨before, later, hcalls, hlater⟩
    -- With no call after it, the order to fail is the last call itself.
    rcases List.eq_nil_or_concat' later with rfl | ⟨front, last, rfl⟩
    · exact Or.inl (List.cons.inj (List.append_inj' hcalls rfl).2).1
    · rw [← List.cons_append, ← List.append_assoc] at hcalls
      obtain ⟨hfront, hlast⟩ := List.append_inj' hcalls rfl
      cases hlast
      rw [List.forall_mem_append, List.forall_mem_singleton] at hlater
      exact Or.inr ⟨hlater.2, before, front, hfront, hlater.1⟩
  · rintro (rfl | ⟨hpolls, before, later, rfl, hlater⟩)
    · exact ⟨calls, [], rfl, nofun⟩
    · refine ⟨before, later ++ [c], ?_, ?_⟩
      · rw [List.append_assoc, List.cons_append]
      · exact List.forall_mem_append.mpr ⟨hlater, List.forall_mem_singleton.mpr hpolls⟩

end SensorCall

namespace Sensor

open SensorCall (Armed)

omit [Scalar α] in
theorem sense_fails_iff (s : Sensor α) :
    s.sense.1 = .error .sensorUnavailable ↔ s.failsNext = true := by
  cases h : s.failsNext with
  | false => simp [sense_of_works h]
  | true => simp [sense_of_fails h]

/-- The sensor after a call. -/
def call (s : Sensor α) : SensorCall α → Sensor α
  | .push reading => s.push reading
  | .failNext => s.failNext
  | .sense => s.sense.2
  | .drain => s.drain.2
  | .read => s.read.2

/-- The readings that a call drains, numbers or not. -/
def drainedBy (s : Sensor α) : SensorCall α → List (Reading α)
  | .drain => s.drain.1
  | .read => s.polled
  | _ => []

/-- The sensor after calls. -/
def after (s : Sensor α) (calls : List (SensorCall α)) : Sensor α := calls.foldl call s

/-- **The readings that calls drain**, in order. -/
def drainedIn (s : Sensor α) : List (SensorCall α) → List (Reading α)
  | [] => []
  | c :: calls => s.drainedBy c ++ (s.call c).drainedIn calls

/-- **A call loses no reading** and doubles none. -/
theorem drainedBy_append_held (s : Sensor α) (c : SensorCall α) :
    s.drainedBy c ++ (s.call c).held = s.held ++ c.pushed := by
  cases c with
  | push reading => exact s.held_push reading
  | failNext => exact s.held_failNext.trans (List.append_nil _).symm
  | sense => exact s.held_sense.trans (List.append_nil _).symm
  | drain => exact s.drain_append_held.trans (List.append_nil _).symm
  | read => exact s.polled_append_held.trans (List.append_nil _).symm

/-- **Calls deliver what was pushed**, once and in order: what they drain, followed by what is then
held. -/
theorem drainedIn_append_held (s : Sensor α) (calls : List (SensorCall α)) :
    s.drainedIn calls ++ (s.after calls).held = s.held ++ calls.flatMap SensorCall.pushed := by
  induction calls generalizing s with
  | nil => exact (List.append_nil _).symm
  | cons c calls ih =>
    calc s.drainedIn (c :: calls) ++ (s.after (c :: calls)).held
        = s.drainedBy c ++ ((s.call c).drainedIn calls ++ ((s.call c).after calls).held) :=
          List.append_assoc ..
      _ = s.drainedBy c ++ (s.call c).held ++ calls.flatMap SensorCall.pushed := by
          rw [ih, List.append_assoc]
      _ = s.held ++ (c :: calls).flatMap SensorCall.pushed := by
          rw [drainedBy_append_held, List.append_assoc, List.flatMap_cons]

theorem after_concat (s : Sensor α) (calls : List (SensorCall α)) (c : SensorCall α) :
    s.after (calls ++ [c]) = (s.after calls).call c := by
  unfold after
  rw [List.foldl_append]
  rfl

/-- **A call that polls disarms the sensor**, and no other does. -/
theorem failsNext_call (s : Sensor α) (c : SensorCall α) :
    (s.call c).failsNext = true ↔ c = .failNext ∨ (c.polls = false ∧ s.failsNext = true) := by
  -- A poll disarms the sensor whether it fails or not.
  cases c with
  | push reading => simp [call, push, SensorCall.polls]
  | failNext => simp [call, failNext]
  | drain => simp [call, drain, SensorCall.polls]
  | sense =>
    cases h : s.failsNext with
    | false => simp [call, sense_of_works h, SensorCall.polls, h]
    | true => simp [call, sense_of_fails h, SensorCall.polls]
  | read =>
    cases h : s.failsNext with
    | false => simp [call, read_of_works h, SensorCall.polls, h]
    | true => simp [call, read_of_fails h, SensorCall.polls]

/-- **The next poll fails** exactly if the sensor was told so after its last poll. -/
theorem failsNext_iff_armed (calls : List (SensorCall α)) :
    ((empty : Sensor α).after calls).failsNext = true ↔ Armed calls := by
  induction calls using List.reverseRecOn with
  | nil => exact iff_of_false Bool.false_ne_true SensorCall.not_armed_nil
  | append_singleton calls c ih =>
    rw [after_concat, failsNext_call, SensorCall.armed_concat, ih]

end Sensor

/-! ## §2. Delivery. -/

/-- **A new sensor is orderly after calls.** -/
structure Sensor.OrderlyAfter (s : Sensor α) (calls : List (SensorCall α)) : Prop where
  /-- Every reading that was pushed has been drained once, in order, or was polled and not drained
  yet, or still waits for a poll. -/
  kept : Sensor.empty.drainedIn calls ++ (s.sensed ++ s.pending) = calls.flatMap SensorCall.pushed
  /-- The next poll fails exactly if the sensor was told so after its last poll. -/
  fails_iff : s.sense.1 = .error .sensorUnavailable ↔ SensorCall.Armed calls
  /-- A poll that fails moves no reading, and the next one works again. -/
  sense_fails : SensorCall.Armed calls → s.sense.2 = { s with failsNext := false }
  /-- A poll that works leaves no reading waiting: it appends them to those polled before. -/
  sense_works : ¬ SensorCall.Armed calls →
    s.sense = (.ok (), { s with pending := [], sensed := s.sensed ++ s.pending })
  /-- If its poll fails, reading the sensor drains nothing and yields nothing. -/
  read_fails : SensorCall.Armed calls →
    s.polled = [] ∧ s.read = (⟨[], some (.failed .sensorUnavailable)⟩, { s with failsNext := false })
  /-- If its poll works, it drains all that was polled or waited, and yields the numbers among it,
  in order. -/
  read_works : ¬ SensorCall.Armed calls →
    s.polled = s.sensed ++ s.pending
      ∧ s.read.1.readings = s.polled.filter (Scalar.isFinite ·.value)
      ∧ s.read.2 = { s with pending := [], sensed := [] }

/-- **A sensor delivers every reading once, in order**, over all sequences of calls. -/
theorem sensor_delivers (calls : List (SensorCall α)) :
    (Sensor.empty.after calls).OrderlyAfter calls := by
  have harmed := Sensor.failsNext_iff_armed calls
  have hworks : ¬ SensorCall.Armed calls → (Sensor.empty.after calls).failsNext = false :=
    fun h => Bool.eq_false_iff.mpr (mt harmed.mp h)
  refine ⟨Sensor.empty.drainedIn_append_held calls, (Sensor.sense_fails_iff _).trans harmed,
    fun h => ?_, fun h => ?_, fun h => ?_, fun h => ?_⟩
  · rw [Sensor.sense_of_fails (harmed.mpr h)]
  · exact Sensor.sense_of_works (hworks h)
  · exact ⟨Sensor.polled_of_fails (harmed.mpr h), Sensor.read_of_fails (harmed.mpr h)⟩
  · refine ⟨Sensor.polled_of_works (hworks h), Sensor.readings_read _, ?_⟩
    rw [Sensor.read_of_works (hworks h)]

end CapacityControl.Control
