/-
  CapacityControl.Control.Manager
  ───────────────────────────────
  MANAGERS.  A manager is a core and a policy.  It begins a run by a reset, then samples
  and controls whenever it is told to; after each step it notifies the observers of that
  step, in the order in which they came.
-/
import CapacityControl.Control.Controller
import CapacityControl.Control.Monitor

namespace CapacityControl.Control

variable {α : Type} [Scalar α]

/-! ## §1. Policies. -/

/-- What a manager does. -/
inductive Policy (α : Type) where
  | fuzzy (controller : Controller α)
  | monitor (monitor : Monitor α)

namespace Policy

/-- The counters. -/
def counters : Policy α → Counters
  | fuzzy c => c.counters
  | monitor c => c.counters

/-- The smoothing factor, for a policy that has one. -/
def smoothingFactor? : Policy α → Option α
  | fuzzy c => some c.smoothingFactor
  | monitor _ => none

/-- Sets the smoothing factor, for a policy that has one. -/
def withFactor (p : Policy α) (factor : α) : Except Requirement (Policy α) :=
  match p with
  | fuzzy c => (c.withFactor factor).map fuzzy
  | monitor c => .ok (monitor c)

/-- Begins a run. -/
def reset (p : Policy α) (core : Core α) (t : Testbed α) (storage : Storage) :
    Restarted (Policy α) α :=
  match p with
  | fuzzy c => (c.reset core t storage).map fuzzy
  | monitor c => (c.reset core t storage).map monitor

/-- Samples. -/
def sample (p : Policy α) (core : Core α) (t : Testbed α) : Sampled (Policy α) α :=
  match p with
  | fuzzy c => (c.sample core t).map fuzzy
  | monitor c => (c.sample core t).map monitor

/-- Controls. -/
def control (p : Policy α) (core : Core α) (t : Testbed α) (storage : Storage) (stamp : Int) :
    Controlled (Policy α) α :=
  match p with
  | fuzzy c => (c.control core t storage stamp).map fuzzy
  | monitor c => (c.control core t storage stamp).map monitor

end Policy

/-! ## §2. Observers. -/

/-- The steps that can be observed. -/
inductive Event where
  | reset
  | sample
  | control
  deriving DecidableEq, Repr

/-- An observer of one kind of step, known by a tag. -/
structure Observer where
  event : Event
  tag : String
  deriving DecidableEq, Repr

/-- What an observer sees: the number of controls at that time. -/
structure Notice where
  tag : String
  controls : UInt64
  deriving DecidableEq, Repr

/-! ## §3. Managers. -/

/-- A manager. -/
structure Manager (α : Type) where
  core : Core α
  policy : Policy α
  observers : List Observer

namespace Manager

/-- A manager without settings. -/
def new (p : Policy α) : Manager α := ⟨.initial, p, []⟩

/-- Adds an observer. -/
def observe (m : Manager α) (o : Observer) : Manager α :=
  { m with observers := m.observers ++ [o] }

/-- What the observers of a step see. -/
def notices (m : Manager α) (e : Event) : List Notice :=
  (m.observers.filter (·.event == e)).map fun o => ⟨o.tag, m.policy.counters.controls⟩

/-- Changes the core. -/
def changingCore (change : Change (Core α) α) : Change (Manager α) α := fun m =>
  (change m.core).map fun core => { m with core := core }

/-- Changes the smoothing factor. -/
def changingFactor (factor : α) : Change (Manager α) α := fun m =>
  (required (m.policy.withFactor factor)).map fun policy => { m with policy := policy }

/-- **Applies a configuration.**  It is checked before the first change is made. -/
def apply (m : Manager α) (config : Config α) : Changed (Manager α) α :=
  inTurn ((fun m => config.check.map fun _ => m) ::
    config.changes.map changingCore ++ [changingFactor config.smoothingFactor]) m

/-- **Begins a run.**  An application has to be known; its statistics are cleared before the
policy is wired. -/
def reset (m : Manager α) (t : Testbed α) (storage : Storage) : Restarted (Manager α) α :=
  if !m.core.bound then ⟨m, storage, .error (.configuration .noApplication)⟩
  else
    let core := m.core.resetStatistics
    (m.policy.reset core t storage).map fun p => { m with core := core, policy := p }

/-- **Samples once.** -/
def sample (m : Manager α) (t : Testbed α) : Sampled (Manager α) α :=
  let s := m.policy.sample m.core t
  ⟨{ m with core := s.core, policy := s.policy }, s.core, s.testbed, s.warnings⟩

/-- **Controls once.**  A control always comes to an outcome. -/
def control (m : Manager α) (t : Testbed α) (storage : Storage) (stamp : Int) :
    Controlled (Manager α) α :=
  let s := m.policy.control m.core t storage stamp
  ⟨{ m with core := s.core, policy := s.policy }, s.core, s.testbed, s.storage, s.outcome,
    s.warnings⟩

end Manager

end CapacityControl.Control
