/-
  CapacityControl.Control.Machine
  ───────────────────────────────
  THE TESTBED: an application spread over machines.  A machine keeps the share of each
  resource and has a sensor for its use; the application has a sensor for each metric.
-/
import CapacityControl.Control.Sensor
import CapacityControl.Control.Share

namespace CapacityControl.Control

variable {α : Type} [Scalar α]

/-! ## §1. Machines. -/

/-- A virtual machine. -/
structure Machine (α : Type) where
  id : String
  /-- The most processors it can get. -/
  capacity : α
  shares : PerResource α
  sensors : PerResource (Sensor α)
  /-- Which of its sensors a manager can find. -/
  offers : PerResource Bool
  /-- Whether it refuses every update of a share. -/
  refuses : Bool
  /-- What it reports as its share of the processor, if not the share it keeps. -/
  reportedCpu : Option α

namespace Machine

/-- A machine with full shares. -/
def new (id : String) (capacity : α) : Machine α :=
  ⟨id, capacity, .const 1.0, .const .empty, .const true, false, none⟩

/-- Sets both shares at once, the processor's first, each in `[0, 1]`. -/
def withShares (m : Machine α) (cpu memory : α) : Except Requirement (Machine α) := do
  let cpu ← checkShare cpu
  let memory ← checkShare memory
  pure { m with shares := ⟨cpu, memory⟩ }

/-- The share it reports. -/
def share (m : Machine α) : Resource → α
  | .cpu => m.reportedCpu.getD m.shares.cpu
  | .memory => m.shares.memory

/-- Updates a share.  Whether the share is in range is checked before the machine is asked. -/
def setShare (m : Machine α) (r : Resource) (share : α) : Except (Error α) (Machine α) := do
  let share ← required (checkShare share)
  if m.refuses then .error (.driver (.updateRefused m.id))
  else .ok { m with shares := m.shares.set r share }

/-- Changes the sensor of a resource. -/
def withSensor (m : Machine α) (r : Resource) (f : Sensor α → Sensor α) : Machine α :=
  { m with sensors := m.sensors.modify r f }

end Machine

/-- The order of machines: that of the code points of their names. -/
def orderedIds (ids : List String) : List String := ids.mergeSort (· ≤ ·)

/-! ## §2. The testbed. -/

/-- An application and its machines. -/
structure Testbed (α : Type) where
  machines : List (Machine α)
  outputs : PerMetric (Sensor α)
  /-- Which sensors of the application a manager can find. -/
  offers : PerMetric Bool

namespace Testbed

/-- An application over machines, with every sensor. -/
def new (machines : List (Machine α)) : Testbed α := ⟨machines, .const .empty, .const true⟩

/-- Changes the machine at an index. -/
def withMachine (t : Testbed α) (index : Nat) (f : Machine α → Machine α) : Testbed α :=
  { t with machines := t.machines.modify index f }

/-- Changes the sensor of a metric. -/
def withOutput (t : Testbed α) (m : Metric) (f : Sensor α → Sensor α) : Testbed α :=
  { t with outputs := t.outputs.modify m f }

/-- The shares that the machines keep. -/
def shares (t : Testbed α) : List (PerResource α) := t.machines.map (·.shares)

end Testbed

end CapacityControl.Control
