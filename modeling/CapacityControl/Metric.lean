/-
  CapacityControl.Metric
  ──────────────────────
  WHAT IS OBSERVED.  An application is judged by its metrics (`Metric`), a virtual
  machine by the use it makes of its resources (`Resource`).  Both sets are closed and
  ordered as they are listed; `PerMetric` and `PerResource` hold one value for each
  member, so a table over them is always complete and always in that order.
-/
import CapacityControl.Requirement

namespace CapacityControl

/-! ## §1. Application metrics. -/

/-- A performance metric of the application. -/
inductive Metric where
  /-- The time a request takes; lower is better. -/
  | responseTime
  /-- Requests served per unit of time; higher is better. -/
  | throughput
  deriving DecidableEq, Repr

namespace Metric

/-- Every metric, in order. -/
def all : List Metric := [responseTime, throughput]

/-- The name of a metric in configurations, logs and messages. -/
def name : Metric → String
  | responseTime => "response_time"
  | throughput => "throughput"

/-- The metric of that name. -/
def ofName? (s : String) : Option Metric := all.find? (·.name == s)

/-- How far `measured` is on the good side of `target`, as a fraction of the target:
positive if the application does better than required, negative if it lags behind. -/
def relativeError {α : Type} [Scalar α] : Metric → α → α → α
  | responseTime, target, measured => (target - measured) / target
  | throughput, target, measured => (measured - target) / target

end Metric

/-- One value for every metric. -/
structure PerMetric (β : Type) where
  responseTime : β
  throughput : β
  deriving BEq, DecidableEq

namespace PerMetric

variable {β γ : Type}

/-- The value of a metric. -/
def get (t : PerMetric β) : Metric → β
  | .responseTime => t.responseTime
  | .throughput => t.throughput

/-- Replaces the value of one metric. -/
def set (t : PerMetric β) (m : Metric) (v : β) : PerMetric β :=
  match m with
  | .responseTime => { t with responseTime := v }
  | .throughput => { t with throughput := v }

/-- Changes the value of one metric. -/
def modify (t : PerMetric β) (m : Metric) (f : β → β) : PerMetric β := t.set m (f (t.get m))

/-- Changes every value. -/
def map (f : β → γ) (t : PerMetric β) : PerMetric γ := ⟨f t.responseTime, f t.throughput⟩

/-- The same value for every metric. -/
def const (v : β) : PerMetric β := ⟨v, v⟩

/-- The present entries, in the order of the metrics. -/
def entries (t : PerMetric (Option β)) : List (Metric × β) :=
  Metric.all.filterMap fun m => (t.get m).map fun v => (m, v)

/-- A table is known by its values. -/
theorem ext_get {t u : PerMetric β} (h : ∀ m, t.get m = u.get m) : t = u := by
  cases t
  cases u
  have first := h .responseTime
  have second := h .throughput
  simp_all [get]

theorem get_set (t : PerMetric β) (m k : Metric) (v : β) :
    (t.set m v).get k = if k = m then v else t.get k := by
  cases m <;> cases k <;> rfl

theorem get_modify (t : PerMetric β) (m k : Metric) (f : β → β) :
    (t.modify m f).get k = if k = m then f (t.get k) else t.get k := by
  cases m <;> cases k <;> rfl

theorem get_map (f : β → γ) (t : PerMetric β) (m : Metric) : (t.map f).get m = f (t.get m) := by
  cases m <;> rfl

theorem get_const (v : β) (m : Metric) : (const v).get m = v := by
  cases m <;> rfl

end PerMetric

/-! ## §2. Resources of a machine. -/

/-- A resource of a virtual machine whose share can be changed. -/
inductive Resource where
  | cpu
  | memory
  deriving DecidableEq, Repr

namespace Resource

/-- Every resource, in order. -/
def all : List Resource := [cpu, memory]

/-- The name of the utilisation of a resource. -/
def name : Resource → String
  | cpu => "cpu_util"
  | memory => "memory_util"

/-- The resource whose utilisation has that name. -/
def ofName? (s : String) : Option Resource := all.find? (·.name == s)

end Resource

/-- One value for every resource. -/
structure PerResource (β : Type) where
  cpu : β
  memory : β
  deriving DecidableEq

namespace PerResource

variable {β γ : Type}

/-- The value of a resource. -/
def get (t : PerResource β) : Resource → β
  | .cpu => t.cpu
  | .memory => t.memory

/-- Replaces the value of one resource. -/
def set (t : PerResource β) (r : Resource) (v : β) : PerResource β :=
  match r with
  | .cpu => { t with cpu := v }
  | .memory => { t with memory := v }

/-- Changes the value of one resource. -/
def modify (t : PerResource β) (r : Resource) (f : β → β) : PerResource β := t.set r (f (t.get r))

/-- Changes every value. -/
def map (f : β → γ) (t : PerResource β) : PerResource γ := ⟨f t.cpu, f t.memory⟩

/-- The same value for every resource. -/
def const (v : β) : PerResource β := ⟨v, v⟩

/-- The values in the order of the resources. -/
def toList (t : PerResource β) : List β := [t.cpu, t.memory]

/-- A table is known by its values. -/
theorem ext_get {t u : PerResource β} (h : ∀ r, t.get r = u.get r) : t = u := by
  cases t
  cases u
  have first := h .cpu
  have second := h .memory
  simp_all [get]

theorem get_set (t : PerResource β) (r k : Resource) (v : β) :
    (t.set r v).get k = if k = r then v else t.get k := by
  cases r <;> cases k <;> rfl

theorem get_modify (t : PerResource β) (r k : Resource) (f : β → β) :
    (t.modify r f).get k = if k = r then f (t.get k) else t.get k := by
  cases r <;> cases k <;> rfl

theorem get_map (f : β → γ) (t : PerResource β) (r : Resource) :
    (t.map f).get r = f (t.get r) := by
  cases r <;> rfl

theorem get_const (v : β) (r : Resource) : (const v).get r = v := by
  cases r <;> rfl

end PerResource

/-! ## §3. Names. -/

/-- Finds a category by its name, or reports that there is none. -/
def categoryNamed {α β : Type} (find : String → Option β) (name : String) :
    Except (ValueError α) β :=
  match find name with
  | some c => .ok c
  | none => .error (.unknownCategory name)

end CapacityControl
