/-
  CapacityControl.Proofs.Control.Beginning
  ────────────────────────────────────────
  HOW A RUN BEGINS.  A reset goes in stages: the application has to be known, the statistics
  of its metrics are cleared, its sensors and those of the machines are found, the levels and
  the counters start anew, and last the log is reopened.  A policy stops at its first obstacle
  (`Policy.reset_eq`), and nothing that was done before is undone.  So a reset finds no
  application, or stops at an obstacle, or begins a run (`Station.reset_cases`); if it
  succeeds, the run has begun and its log holds the header (`Station.log_beginning`).
-/
import CapacityControl.Control.Station
import CapacityControl.Proofs.Log.Rows

namespace CapacityControl.Control

open Log

variable {α : Type} [Scalar α]

/-! ## §1. Logs that are reopened. -/

section Reopen

variable {log : Option DataLog} {storage : Storage} {path : Option String} {name : String}
  {columns : List String}

omit [Scalar α] in
theorem reopen_some (log : Option DataLog) (storage : Storage) (path : String)
    (columns : List String) :
    (reopen log storage (some path) columns : Reopened α)
      = match DataLog.create (log.elim storage (·.close storage)) path columns with
        | .ok (storage, log) => ⟨some log, storage, .ok ()⟩
        | .error fault =>
          ⟨none, log.elim storage (·.close storage), .error (.dataLog path (.file fault))⟩ := by
  cases log with
  | none => rfl
  | some log => rfl

omit [Scalar α] in
/-- **A log that is reopened** holds its header. -/
theorem reopen_ok (h : (reopen log storage (some name) columns : Reopened α).result = .ok ()) :
    ∃ opened, (reopen log storage (some name) columns : Reopened α).log = some opened
      ∧ opened.path = name
      ∧ ∀ width, opened.Holds (reopen log storage (some name) columns : Reopened α).storage width
          (headerLine columns) := by
  rw [reopen_some] at h ⊢
  cases hcreate : DataLog.create (log.elim storage (·.close storage)) name columns with
  | error fault =>
    rw [hcreate] at h
    cases h
  | ok created =>
    obtain ⟨storage', opened⟩ := created
    exact ⟨opened, rfl, (DataLog.holds_create hcreate 0).1, fun width =>
      (DataLog.holds_create hcreate width).2⟩

omit [Scalar α] in
/-- **A log that cannot be reopened** leaves what no log at all would leave. -/
theorem reopen_error {e : Error α}
    (h : (reopen log storage path columns : Reopened α).result = .error e) :
    ∃ name fault, path = some name ∧ e = .dataLog name (.file fault)
      ∧ (reopen log storage path columns : Reopened α)
        = { (reopen log storage none columns : Reopened α) with result := .error e } := by
  cases path with
  | none => cases h
  | some name =>
    rw [reopen_some] at h ⊢
    cases hcreate : DataLog.create (log.elim storage (·.close storage)) name columns with
    | ok created =>
      rw [hcreate] at h
      cases h
    | error fault =>
      rw [hcreate] at h
      cases h
      -- The old log was closed before the new one was tried, as it is without a path.
      refine ⟨name, fault, rfl, rfl, ?_⟩
      cases log with
      | none => rfl
      | some log => rfl

omit [Scalar α] in
/-- Only the files decide over a path that leads somewhere, so the next log can be opened. -/
theorem reopen_located {log : DataLog} (h : storage.locate log.path = .ok log.place) :
    (reopen (some log) storage (some log.path) columns : Reopened α).result = .ok () := by
  have hcreate : DataLog.create (log.close storage) log.path columns
      = .ok ((log.close storage).put log.place (headerLine columns), ⟨log.path, log.place, .start⟩) :=
    bind_eq_ok_iff.mpr ⟨log.place, storage.locate_put h log.place _, rfl⟩
  rw [reopen_some]
  show (match DataLog.create (log.close storage) log.path columns with
    | .ok (storage, log) => (⟨some log, storage, .ok ()⟩ : Reopened α)
    | .error fault => ⟨none, _, .error (.dataLog log.path (.file fault))⟩).result = _
  rw [hcreate]

end Reopen

/-! ## §2. How far a policy comes. -/

namespace Policy

/-- The log of a policy. -/
def log? : Policy α → Option DataLog
  | fuzzy c => c.log
  | monitor c => c.log

/-- For how many machines a policy keeps levels. -/
def channels : Policy α → Nat
  | fuzzy c => c.channels.length
  | monitor _ => 0

/-- Whether a policy reads the sensors of machines. -/
def readsMachines : Policy α → Bool
  | fuzzy _ => true
  | monitor _ => false

omit [Scalar α] in
/-- A policy that reads the sensors of machines has a controller. -/
theorem exists_fuzzy {p : Policy α} (h : p.readsMachines = true) : ∃ c, p = .fuzzy c := by
  cases p with
  | fuzzy c => exact ⟨c, rfl⟩
  | monitor c => cases h

omit [Scalar α] in
/-- A policy that reads no sensor of a machine has a monitor. -/
theorem exists_monitor {p : Policy α} (h : p.readsMachines = false) : ∃ c, p = .monitor c := by
  cases p with
  | fuzzy c => cases h
  | monitor c => exact ⟨c, rfl⟩

/-- The columns of the log. -/
def columns (p : Policy α) (core : Core α) (machines : List (Machine α)) : List String :=
  match p with
  | fuzzy _ => Controller.columns core machines
  | monitor _ => Monitor.columns core machines

/-- What a policy lacks to begin a run, if anything.  The monitor does without targets and
without the sensors of machines. -/
def obstacle? (p : Policy α) (core : Core α) (t : Testbed α) : Option WiringFault :=
  match p, core.wire t with
  | fuzzy _, .error fault => if core.hasTarget then some fault else some .noTarget
  | fuzzy _, .ok _ =>
    if core.hasTarget then Controller.missingSensor? t.machines else some .noTarget
  | monitor _, .error fault => some fault
  | monitor _, .ok _ => none

/-- The policy with the sensors of the metrics that have a target. -/
def rewired (p : Policy α) (core : Core α) : Policy α :=
  match p with
  | fuzzy c => fuzzy { c with wired := core.targets.map Option.isSome }
  | monitor c => monitor { c with wired := core.targets.map Option.isSome }

/-- The policy at an obstacle: only the sensors of machines are looked for after those of the
application. -/
def haltedAt (p : Policy α) (core : Core α) : WiringFault → Policy α
  | .noResourceSensor _ _ => p.rewired core
  | _ => p

/-- **The policy at the beginning of a run**: no levels, no controls, and this log. -/
def begun (p : Policy α) (core : Core α) (t : Testbed α) (log : Option DataLog) : Policy α :=
  match p with
  | fuzzy c => fuzzy { c with
      wired := core.targets.map Option.isSome
      channels := t.machines.map fun _ => .const ⟨⟨c.smoothingFactor, none⟩, 0⟩
      counters := .zero
      engine := c.engine.restart
      log := log }
  | monitor _ => monitor ⟨.zero, core.targets.map Option.isSome, log⟩

theorem log?_begun (p : Policy α) (core : Core α) (t : Testbed α) (log : Option DataLog) :
    (p.begun core t log).log? = log := by
  cases p with
  | fuzzy c => rfl
  | monitor c => rfl

theorem counters_begun (p : Policy α) (core : Core α) (t : Testbed α) (log : Option DataLog) :
    (p.begun core t log).counters = .zero := by
  cases p with
  | fuzzy c => rfl
  | monitor c => rfl

theorem columns_begun (p : Policy α) (core : Core α) (t : Testbed α) (log : Option DataLog) :
    (p.begun core t log).columns = p.columns (α := α) := by
  cases p with
  | fuzzy c => rfl
  | monitor c => rfl

theorem channels_begun (p : Policy α) (core : Core α) (t : Testbed α) (log : Option DataLog) :
    (p.begun core t log).channels
      = if (p.begun core t log).readsMachines then t.machines.length else 0 := by
  cases p with
  | fuzzy c => exact List.length_map _
  | monitor c => rfl

/-- Levels are kept for the machines of the testbed only. -/
theorem channels_begun_le (p : Policy α) (core : Core α) (t : Testbed α)
    (log : Option DataLog) : (p.begun core t log).channels ≤ t.machines.length := by
  rw [channels_begun]
  split
  · exact Nat.le_refl _
  · exact Nat.zero_le _

section Obstacles

variable {p : Policy α} {core : Core α} {t : Testbed α} {fault : WiringFault}

omit [Scalar α] in
theorem wire_ok {wired : PerMetric Bool} (h : core.wire t = .ok wired) :
    wired = core.targets.map Option.isSome := by
  unfold Core.wire at h
  split at h
  · cases h
  · cases h
    rfl

omit [Scalar α] in
/-- The application can lack nothing but the sensor of a metric. -/
theorem wire_error (h : core.wire t = .error fault) : ∃ m, fault = .noMetricSensor m := by
  unfold Core.wire at h
  split at h
  · cases h
    exact ⟨_, rfl⟩
  · cases h

omit [Scalar α] in
theorem missingSensor?_some {machines : List (Machine α)}
    (h : Controller.missingSensor? machines = some fault) :
    ∃ machine r, fault = .noResourceSensor machine r := by
  obtain ⟨m, _, hm⟩ := List.exists_of_findSome?_eq_some h
  obtain ⟨r, _, hr⟩ := Option.map_eq_some_iff.mp hm
  exact ⟨m.id, r, hr.symm⟩

omit [Scalar α] in
/-- **Obstacles** are a missing target, or a missing sensor. -/
theorem obstacle?_some (h : p.obstacle? core t = some fault) :
    fault = .noTarget ∨ (∃ m, fault = .noMetricSensor m)
      ∨ ∃ machine r, fault = .noResourceSensor machine r := by
  unfold obstacle? at h
  split at h
  · rename_i hwire
    split at h
    · cases h
      exact Or.inr (Or.inl (wire_error hwire))
    · cases h
      exact Or.inl rfl
  · split at h
    · exact Or.inr (Or.inr (missingSensor?_some h))
    · cases h
      exact Or.inl rfl
  · rename_i hwire
    cases h
    exact Or.inr (Or.inl (wire_error hwire))
  · cases h

omit [Scalar α] in
/-- Without a target the fuzzy controller begins no run. -/
theorem hasTarget_of_obstacle?_none {c : Controller α} (h : (fuzzy c).obstacle? core t = none) :
    core.hasTarget = true := by
  cases htarget : core.hasTarget with
  | true => rfl
  | false =>
    unfold obstacle? at h
    cases hwire : core.wire t with
    | ok wired => simp [hwire, htarget] at h
    | error fault => simp [hwire, htarget] at h

end Obstacles

/-- **A reset of a policy** stops at an obstacle; without one, the run has begun by the time the
log is reopened, whether that succeeds or not. -/
theorem reset_eq (p : Policy α) (core : Core α) (t : Testbed α) (storage : Storage) :
    p.reset core t storage = match p.obstacle? core t with
      | some fault => ⟨p.haltedAt core fault, storage, .error (.configuration fault)⟩
      | none =>
        let reopened := reopen p.log? storage core.dataLog (p.columns core t.machines)
        ⟨p.begun core t reopened.log, reopened.storage, reopened.result⟩ := by
  cases p with
  | fuzzy c =>
    show (c.reset core t storage).map fuzzy = _
    unfold Controller.reset obstacle?
    -- The cases follow the stages: the target, the sensors of the application, those of machines.
    cases htarget : core.hasTarget with
    | false => cases core.wire t <;> rfl
    | true =>
      cases hwire : core.wire t with
      | error fault =>
        obtain ⟨m, rfl⟩ := wire_error hwire
        rfl
      | ok wired =>
        cases wire_ok hwire
        cases hmissing : Controller.missingSensor? t.machines with
        | none => simp [Restarted.map, begun, log?, columns]
        | some fault =>
          obtain ⟨machine, r, rfl⟩ := missingSensor?_some hmissing
          simp [Restarted.map, haltedAt, rewired]
  | monitor c =>
    show (c.reset core t storage).map monitor = _
    unfold Monitor.reset obstacle?
    cases hwire : core.wire t with
    | error fault =>
      obtain ⟨m, rfl⟩ := wire_error hwire
      rfl
    | ok wired =>
      cases wire_ok hwire
      rfl

end Policy

/-! ## §3. Resets of a station. -/

namespace Station

/-- The station at the beginning of a run with this log and these files. -/
def beginning (s : Station α) (log : Option DataLog) (storage : Storage) : Station α :=
  { s with
    manager := { s.manager with
      core := s.manager.core.resetStatistics
      policy := s.manager.policy.begun s.manager.core.resetStatistics s.testbed log }
    storage := storage }

/-- The log that a reset reopens. -/
def reopened (s : Station α) : Reopened α :=
  reopen s.manager.policy.log? s.storage s.manager.core.dataLog
    (s.manager.policy.columns s.manager.core.resetStatistics s.testbed.machines)

/-- What the station lacks to begin a run, other than an application or a log. -/
def obstacle? (s : Station α) : Option WiringFault :=
  s.manager.policy.obstacle? s.manager.core.resetStatistics s.testbed

variable {s : Station α}

/-- A reset of a manager that knows its application is one of its policy. -/
theorem reset_bound (hbound : s.manager.core.bound = true) {r : Restarted (Policy α) α}
    (hr : s.manager.policy.reset s.manager.core.resetStatistics s.testbed s.storage = r) :
    s.reset.station = { s with
        manager := { s.manager with core := s.manager.core.resetStatistics, policy := r.policy }
        storage := r.storage }
      ∧ s.reset.result = r.result.map fun _ => .done := by
  unfold Station.reset Manager.reset
  rw [hbound, ← hr]
  exact ⟨rfl, rfl⟩

/-- **A reset without obstacle** begins a run, and answers as reopening the log does. -/
theorem reset_begins (hbound : s.manager.core.bound = true) (hfound : s.obstacle? = none) :
    s.reset.station = s.beginning s.reopened.log s.reopened.storage
      ∧ s.reset.result = s.reopened.result.map fun _ => .done := by
  refine reset_bound hbound (r := ⟨_, _, s.reopened.result⟩) ?_
  unfold obstacle? at hfound
  rw [Policy.reset_eq, hfound]
  rfl

/-- A reset at an obstacle stops there. -/
theorem reset_halts (hbound : s.manager.core.bound = true) {fault : WiringFault}
    (hfault : s.obstacle? = some fault) :
    s.reset.station = { s with manager := { s.manager with
          core := s.manager.core.resetStatistics
          policy := s.manager.policy.haltedAt s.manager.core.resetStatistics fault } }
      ∧ s.reset.result = .error (.configuration fault) := by
  refine reset_bound hbound (r := ⟨_, s.storage, .error (.configuration fault)⟩) ?_
  unfold obstacle? at hfault
  rw [Policy.reset_eq, hfault]
  rfl

/-- **A reset** finds no application, or stops at an obstacle, or begins a run. -/
theorem reset_cases (s : Station α) :
    (s.reset.station = s ∧ s.reset.result = .error (.configuration .noApplication))
      ∨ (∃ fault, s.obstacle? = some fault
        ∧ s.reset.station = { s with manager := { s.manager with
            core := s.manager.core.resetStatistics
            policy := s.manager.policy.haltedAt s.manager.core.resetStatistics fault } }
        ∧ s.reset.result = .error (.configuration fault))
      ∨ s.manager.core.bound = true ∧ s.obstacle? = none
        ∧ s.reset.station = s.beginning s.reopened.log s.reopened.storage
        ∧ s.reset.result = s.reopened.result.map fun _ => .done := by
  cases hbound : s.manager.core.bound with
  | false =>
    left
    unfold Station.reset Manager.reset
    rw [hbound]
    exact ⟨rfl, rfl⟩
  | true =>
    right
    cases hobstacle : s.obstacle? with
    | some fault => exact Or.inl ⟨fault, rfl, reset_halts hbound hobstacle⟩
    | none => exact Or.inr ⟨rfl, rfl, reset_begins hbound hobstacle⟩

/-- Whom a reset notifies, is seen from what it answers and leaves behind. -/
theorem notices_reset_eq (s : Station α) :
    s.reset.notices = match s.reset.result with
      | .ok _ => s.reset.station.manager.notices .reset
      | .error _ => [] := by
  unfold Station.reset
  dsimp only
  cases (s.manager.reset s.testbed s.storage).result with
  | error e => rfl
  | ok => rfl

/-- A reset that succeeds has found all that it needs. -/
theorem reset_found (h : s.reset.result = .ok .done) :
    s.manager.core.bound = true ∧ s.obstacle? = none := by
  rcases s.reset_cases with ⟨_, hresult⟩ | ⟨fault, _, _, hresult⟩ | ⟨hbound, hfound, _⟩
  · cases hresult.symm.trans h
  · cases hresult.symm.trans h
  · exact ⟨hbound, hfound⟩

/-- **A reset that succeeds** begins a run. -/
theorem reset_ok (h : s.reset.result = .ok .done) :
    s.reopened.result = .ok ()
      ∧ s.reset.station = s.beginning s.reopened.log s.reopened.storage := by
  obtain ⟨hbound, hfound⟩ := reset_found h
  obtain ⟨hstation, hresult⟩ := reset_begins hbound hfound
  obtain ⟨_, hopen, _⟩ := map_eq_ok_iff.mp (hresult.symm.trans h)
  exact ⟨hopen, hstation⟩

/-- **A run begins** with a log that holds its header. -/
theorem log_beginning {path : String} (hpath : s.manager.core.dataLog = some path)
    (hopen : s.reopened.result = .ok ()) :
    ∃ log, (s.beginning s.reopened.log s.reopened.storage).manager.policy.log? = some log
      ∧ log.path = path
      ∧ ∀ width, log.Holds (s.beginning s.reopened.log s.reopened.storage).storage width
          (headerLine (s.manager.policy.columns s.manager.core.resetStatistics
            s.testbed.machines)) := by
  -- The policy holds the log that was reopened, whichever policy it is.
  have hlog := Policy.log?_begun s.manager.policy s.manager.core.resetStatistics s.testbed
    s.reopened.log
  unfold Station.reopened at hopen hlog ⊢
  rw [hpath] at hopen hlog ⊢
  obtain ⟨log, hopened, hname, hholds⟩ := reopen_ok hopen
  exact ⟨log, hlog.trans hopened, hname, hholds⟩

end Station

end CapacityControl.Control
