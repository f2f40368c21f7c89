/-
  CapacityControl.Control.Station
  ───────────────────────────────
  STATIONS.  A station is a manager at work: with the testbed it manages, the files it
  writes and, if its calls are paced, the pacer.  Everything that can happen to a station
  is an `Action`; `Station.perform` says what comes of it.
-/
import CapacityControl.Control.Manager
import CapacityControl.Control.Pacer

namespace CapacityControl.Control

open Stats

variable {α : Type} [Scalar α]

/-! ## §1. Actions. -/

/-- A reading for a sensor of the testbed. -/
inductive Item (α : Type) where
  | machine (index : Nat) (resource : Resource) (value : α)
  | output (metric : Metric) (value : α)

/-- What can happen to a station. -/
inductive Action (α : Type) where
  -- The settings of the manager.
  | bind
  | setTarget (metric : Metric) (value : α)
  | clearTargets
  | setEstimator (metric : Metric) (kind : EstimatorKind α)
  | setSmoother (metric : Metric) (smoother : Smoother α)
  | setSampling (ms : α)
  | setControl (ms : α)
  | setDataLog (path : Option String)
  | setResetsEachInterval (on : Bool)
  | setFactor (factor : α)
  | apply (config : Config α)
  | observe (observer : Observer)
  -- The testbed.
  | feed (items : List (Item α))
  | failMachine (index : Nat) (resource : Resource)
  | failOutput (metric : Metric)
  | refuse (index : Nat) (on : Bool)
  | setShare (index : Nat) (resource : Resource) (share : α)
  -- The steps of the manager.
  | reset
  | sample
  | control
  -- Paced steps: the items of `feeds`, in turn, are pushed before the samples.
  | pace
  | runUntil (time : α) (feeds : List (List (Item α)))

/-- What an action answers. -/
inductive Reply (α : Type) where
  | done
  | controlled (outcome : Outcome α)
  /-- The times of the samples. -/
  | paced (samples : List α)

/-! ## §2. Stations. -/

/-- A manager at work. -/
structure Station (α : Type) where
  manager : Manager α
  testbed : Testbed α
  storage : Storage
  pacer : Option (Pacer α)

/-- What an action leaves behind. -/
structure Performed (α : Type) where
  station : Station α
  result : Except (Error α) (Reply α)
  warnings : List (Warning α)
  notices : List Notice

namespace Station

/-- A station at its beginning. -/
def new (policy : Policy α) (testbed : Testbed α) : Station α :=
  ⟨.new policy, testbed, .fresh, none⟩

/-- Nothing but a change of the station. -/
def changed (s : Station α) : Performed α := ⟨s, .ok .done, [], []⟩

/-- A change of the station that may be refused. -/
def attempt {β : Type} (s : Station α) (r : Except (Error α) β) (f : β → Station α) :
    Performed α :=
  match r with
  | .ok v => (f v).changed
  | .error e => ⟨s, .error e, [], []⟩

/-- The station with other settings. -/
def withCore (s : Station α) (core : Core α) : Station α :=
  { s with manager := { s.manager with core := core } }

/-- Applies a configuration to the manager. -/
def apply (s : Station α) (config : Config α) : Performed α :=
  let r := s.manager.apply config
  { station := { s with manager := r.state }
    result := r.result.map fun _ => .done
    warnings := []
    notices := [] }

/-! ## §3. The testbed. -/

/-- Pushes a reading. -/
def push (t : Testbed α) : Item α → Testbed α
  | .machine index r value => t.withMachine index (·.withSensor r (·.push ⟨r.name, value⟩))
  | .output m value => t.withOutput m (·.push ⟨m.name, value⟩)

/-- Pushes readings, in order. -/
def feed (s : Station α) (items : List (Item α)) : Station α :=
  { s with testbed := items.foldl push s.testbed }

/-- Sets a share of a machine, if there is such a machine. -/
def setShare (s : Station α) (index : Nat) (r : Resource) (share : α) : Performed α :=
  match s.testbed.machines[index]? with
  | none => s.changed
  | some m =>
    s.attempt (m.setShare r share) fun m =>
      { s with testbed := s.testbed.withMachine index fun _ => m }

/-! ## §4. The steps of the manager. -/

/-- Begins a run; observers are notified if that succeeds. -/
def reset (s : Station α) : Performed α :=
  let r := s.manager.reset s.testbed s.storage
  { station := { s with manager := r.policy, storage := r.storage }
    result := r.result.map fun _ => .done
    warnings := []
    notices := match r.result with
      | .ok _ => r.policy.notices .reset
      | .error _ => [] }

/-- Samples. -/
def sample (s : Station α) : Performed α :=
  let r := s.manager.sample s.testbed
  { station := { s with manager := r.policy, testbed := r.testbed }
    result := .ok .done
    warnings := r.warnings
    notices := r.policy.notices .sample }

/-- Controls at a time, given in seconds since the epoch. -/
def control (s : Station α) (stamp : Int) : Performed α :=
  let r := s.manager.control s.testbed s.storage stamp
  { station := { s with manager := r.policy, testbed := r.testbed, storage := r.storage }
    result := .ok (.controlled r.outcome)
    warnings := r.warnings
    notices := r.policy.notices .control }

/-! ## §5. Paced steps. -/

/-- A station in the middle of a paced run: how many samples there were, and what all calls
so far have left behind. -/
structure Walk (α : Type) where
  samples : List α
  performed : Performed α

/-- The items for the sample of that number: the lists of feeds are used in turn. -/
def itemsAt (feeds : List (List (Item α))) (number : Nat) : List (Item α) :=
  (feeds[number % feeds.length]?).getD []

/-- What happens after what has happened. -/
def Walk.on (w : Walk α) (samples : List α) (p : Performed α) : Walk α :=
  ⟨w.samples ++ samples, ⟨p.station, p.result, w.performed.warnings ++ p.warnings,
    w.performed.notices ++ p.notices⟩⟩

/-- Makes one call. -/
def Walk.call (feeds : List (List (Item α))) (stamp : Int) (w : Walk α) : Call α → Walk α
  | .sample time =>
    w.on [time] (w.performed.station.feed (itemsAt feeds w.samples.length)).sample
  | .control _ => w.on [] (w.performed.station.control stamp)

/-- **Makes the calls that are due until a time.**  Without a pacer nothing is due. -/
def runUntil (s : Station α) (time : α) (feeds : List (List (Item α))) (stamp : Int) :
    Performed α :=
  match s.pacer with
  | none => ⟨s, .ok (.paced []), [], []⟩
  | some pacer =>
    let (calls, pacer) := pacer.runUntil time
    let start : Walk α := ⟨[], { s with pacer := some pacer }.changed⟩
    let walk := calls.foldl (Walk.call feeds stamp) start
    { walk.performed with result := .ok (.paced walk.samples) }

/-! ## §6. All actions. -/

/-- **What comes of an action** at a time, given in seconds since the epoch. -/
def perform (s : Station α) (stamp : Int) : Action α → Performed α
  | .bind => (s.withCore s.manager.core.bind).changed
  | .setTarget m value => s.attempt (s.manager.core.withTarget m value) s.withCore
  | .clearTargets => (s.withCore s.manager.core.withoutTargets).changed
  | .setEstimator m kind =>
    s.attempt (required kind.build) fun e => s.withCore (s.manager.core.withEstimator m e)
  | .setSmoother m smoother => (s.withCore (s.manager.core.withSmoother m smoother)).changed
  | .setSampling ms =>
    s.attempt (required (s.manager.core.intervals.withSampling ms)) fun i =>
      s.withCore { s.manager.core with intervals := i }
  | .setControl ms =>
    s.attempt (required (s.manager.core.intervals.withControl ms)) fun i =>
      s.withCore { s.manager.core with intervals := i }
  | .setDataLog path => (s.withCore { s.manager.core with dataLog := path }).changed
  | .setResetsEachInterval on =>
    (s.withCore { s.manager.core with resetsEachInterval := on }).changed
  | .setFactor factor =>
    s.attempt (required (s.manager.policy.withFactor factor)) fun p =>
      { s with manager := { s.manager with policy := p } }
  | .apply config => s.apply config
  | .observe o => { s with manager := s.manager.observe o }.changed
  | .feed items => (s.feed items).changed
  | .failMachine index r =>
    { s with testbed := s.testbed.withMachine index (·.withSensor r Sensor.failNext) }.changed
  | .failOutput m => { s with testbed := s.testbed.withOutput m Sensor.failNext }.changed
  | .refuse index on =>
    { s with testbed := s.testbed.withMachine index fun m => { m with refuses := on } }.changed
  | .setShare index r share => s.setShare index r share
  | .reset => s.reset
  | .sample => s.sample
  | .control => s.control stamp
  | .pace => { s with pacer := some (.new s.manager.core.intervals) }.changed
  | .runUntil time feeds => s.runUntil time feeds stamp

end Station

end CapacityControl.Control
