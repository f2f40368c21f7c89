/-
  CapacityControl.Proofs.Control.Logging
  ──────────────────────────────────────
  THE LOG OF A RUN.  The header is written at the reset, from the targets of that time;
  a row is written at every control, from the targets of that time.  Both have three
  fields for each target, and otherwise as many fields as each other
  (`Policy.length_columns_begun`, `Policy.length_row`).  So the log is complete, and as wide as
  its header in every row, exactly as long as there are as many targets at every control
  as there were at the reset (`Station.completeLog_iff`).
-/
import CapacityControl.Proofs.Control.Calls
import CapacityControl.Proofs.Control.Sampling
import CapacityControl.Proofs.Log.Rows

namespace CapacityControl.Control

open Log

variable {α : Type} [Scalar α]

/-! ## §1. Rows and headers. -/

theorem Counters.controls_record {β : Type} (c : Counters) (outcome : Outcome β) :
    (c.record outcome).controls = c.controls + 1 := by
  cases outcome with
  | applied => rfl
  | skipped reason => rfl
  | failed cause => rfl

/-- **A row of the right width** is one more line of the file. -/
theorem writeRow_holds {log : DataLog} {storage : Storage} {text : String} {row : List (Cell α)}
    (h : log.Holds storage row.length text) :
    ∃ log', (writeRow (some log) storage row).log = some log' ∧ log'.path = log.path
      ∧ log'.Holds (writeRow (some log) storage row).storage row.length
          (text ++ rowLine (row.map Cell.text))
      ∧ (writeRow (some log) storage row).warnings = [] := by
  rw [← List.length_map Cell.text] at h ⊢
  obtain ⟨log', storage', hwrite, hpath, hholds⟩ := h.writeRow
  have hlogged : writeRow (some log) storage row = ⟨some log', storage', []⟩ := by
    unfold Control.writeRow
    dsimp only
    rw [hwrite]
  rw [hlogged]
  exact ⟨log', rfl, hpath, hholds, rfl⟩

theorem join_singleton (text : String) : String.join [text] = text := by
  simp [String.join]

/-! A machine has two fields, a target three, and the time and the counters have four. -/

theorem Controller.length_row (stamp : Int) (machines : List (Machine α))
    (readings : List (TargetReading α)) (residuals : List (Residuals α)) (counters : Counters) :
    (Controller.row stamp machines readings residuals counters).length
      = 4 + 2 * machines.length + 3 * readings.length + residuals.length := by
  simp only [row, machineCells, counterCells, List.length_cons, List.length_append,
    List.length_flatMap, List.length_map, List.length_nil, List.map_const', List.sum_replicate_nat]
  omega

theorem Monitor.length_row (stamp : Int) (machines : List (Machine α))
    (readings : List (TargetReading α)) (counters : Counters) :
    (Monitor.row stamp machines readings counters).length
      = 4 + 2 * machines.length + 3 * readings.length := by
  simp only [row, machineCells, counterCells, List.length_cons, List.length_append,
    List.length_flatMap, List.length_nil, List.map_const', List.sum_replicate_nat]
  omega

omit [Scalar α] in
theorem Controller.length_columns (core : Core α) (machines : List (Machine α)) :
    (Controller.columns core machines).length
      = 4 + 2 * machines.length + 3 * core.targets.entries.length + machines.length := by
  simp only [columns, machineColumns, counterColumns, List.length_cons, List.length_append,
    List.length_flatMap, List.length_map, List.length_nil, List.map_const', List.sum_replicate_nat]
  omega

omit [Scalar α] in
theorem Monitor.length_columns (core : Core α) (machines : List (Machine α)) :
    (Monitor.columns core machines).length
      = 4 + 2 * machines.length + 3 * core.targets.entries.length := by
  simp only [columns, machineColumns, counterColumns, List.length_cons, List.length_append,
    List.length_flatMap, List.length_nil, List.map_const', List.sum_replicate_nat]
  omega

/-! ## §2. What a policy logs. -/

namespace Policy

/-- The row of a control. -/
def row (p : Policy α) (core : Core α) (t : Testbed α) (stamp : Int) : List (Cell α) :=
  match p with
  | fuzzy c =>
    -- The residuals are those before the control, the shares those after it.
    let decision := c.decide t core.readings
    Controller.row stamp decision.machines core.readings (Controller.residuals (c.managed t))
      (c.counters.record decision.outcome)
  | monitor c =>
    Monitor.row stamp t.machines core.readings (c.counters.record (Monitor.outcome core.readings))

/-- How many fields a policy logs for so many machines and targets. -/
def fieldCount (p : Policy α) (machines targets : Nat) : Nat :=
  4 + 2 * machines + 3 * targets + p.channels

/-- **The width of a row**: it has three fields for every target at the control. -/
theorem length_row (p : Policy α) (core : Core α) (t : Testbed α) (stamp : Int)
    (wired : p.channels ≤ t.machines.length) :
    (p.row core t stamp).length
      = p.fieldCount t.machines.length core.targets.entries.length := by
  have hreadings : core.readings.length = core.targets.entries.length := List.length_map _
  cases p with
  | fuzzy c =>
    have hresiduals : (Controller.residuals (c.managed t)).length = c.channels.length := by
      rw [Controller.residuals, List.length_map, Controller.managed, List.length_zip]
      exact Nat.min_eq_right wired
    show (Controller.row _ _ _ _ _).length = 4 + _ + _ + c.channels.length
    rw [Controller.length_row, c.length_decide, hreadings, hresiduals]
  | monitor c =>
    show (Monitor.row _ _ _ _).length = 4 + _ + _
    rw [Monitor.length_row, hreadings]

/-- **What a control does to the log**: it writes one row, and counts itself. -/
theorem control_logged (p : Policy α) (core : Core α) (t : Testbed α) (storage : Storage)
    (stamp : Int) :
    (p.control core t storage stamp).policy.log?
        = (writeRow p.log? storage (p.row core t stamp)).log
      ∧ (p.control core t storage stamp).storage
        = (writeRow p.log? storage (p.row core t stamp)).storage
      ∧ (p.control core t storage stamp).policy.counters.controls = p.counters.controls + 1
      ∧ (p.control core t storage stamp).policy.channels = p.channels
      ∧ (p.control core t storage stamp).testbed.machines.length = t.machines.length := by
  cases p with
  | fuzzy c =>
    exact ⟨rfl, rfl, Counters.controls_record _ _, List.length_map _,
      c.length_decide t core.readings⟩
  | monitor c => exact ⟨rfl, rfl, Counters.controls_record _ _, rfl, rfl⟩

/-- **A row of the right width** reaches the log, and there is nothing to warn of. -/
theorem control_holds {p : Policy α} {core : Core α} {t : Testbed α} {storage : Storage}
    {stamp : Int} {log : DataLog} {width : Nat} {text : String} (hlog : p.log? = some log)
    (hholds : log.Holds storage width text) (hwidth : (p.row core t stamp).length = width) :
    (∃ log', (p.control core t storage stamp).policy.log? = some log' ∧ log'.path = log.path
        ∧ log'.Holds (p.control core t storage stamp).storage width
          (text ++ rowLine ((p.row core t stamp).map Cell.text)))
      ∧ (writeRow p.log? storage (p.row core t stamp)).warnings = [] := by
  obtain ⟨hlogged, hstorage, _⟩ := p.control_logged core t storage stamp
  subst hwidth
  rw [hlog] at hlogged hstorage ⊢
  obtain ⟨log', hlog', hpath', hholds', hwarnings⟩ := writeRow_holds hholds
  exact ⟨⟨log', hlogged.trans hlog', hpath', hstorage ▸ hholds'⟩, hwarnings⟩

/-- **The header of a run** is as wide as the rows will be, as long as the targets are as many. -/
theorem length_columns_begun (p : Policy α) (core : Core α) (t : Testbed α)
    (log : Option DataLog) :
    ((p.begun core t log).columns core t.machines).length
      = (p.begun core t log).fieldCount t.machines.length core.targets.entries.length := by
  rw [columns_begun]
  unfold fieldCount
  cases p with
  | fuzzy c =>
    show (Controller.columns _ _).length = 4 + _ + _ + (t.machines.map _).length
    rw [Controller.length_columns, List.length_map]
  | monitor c => exact Monitor.length_columns _ _

/-- Two policies with the same log, the same counters and levels for as many machines. -/
structure SameLog (p q : Policy α) : Prop where
  log : q.log? = p.log?
  counters : q.counters = p.counters
  channels : q.channels = p.channels

omit [Scalar α] in
theorem SameLog.refl (p : Policy α) : p.SameLog p := ⟨rfl, rfl, rfl⟩

omit [Scalar α] in
theorem SameLog.trans {p q r : Policy α} (h : p.SameLog q) (h' : q.SameLog r) : p.SameLog r :=
  ⟨h'.log.trans h.log, h'.counters.trans h.counters, h'.channels.trans h.channels⟩

theorem sameLog_sample (p : Policy α) (core : Core α) (t : Testbed α) :
    p.SameLog (p.sample core t).policy := by
  cases p with
  | fuzzy c => exact ⟨rfl, rfl, (Controller.length_sampleMachines t.machines c.channels).2⟩
  | monitor c => exact ⟨rfl, rfl, rfl⟩

theorem sameLog_withFactor {p q : Policy α} {factor : α} (h : p.withFactor factor = .ok q) :
    p.SameLog q := by
  cases p with
  | fuzzy c =>
    obtain ⟨c', hc', rfl⟩ := map_eq_ok_iff.mp h
    obtain ⟨_, _, rfl⟩ := map_eq_ok_iff.mp hc'
    exact ⟨rfl, rfl, rfl⟩
  | monitor c =>
    cases h
    exact SameLog.refl _

omit [Scalar α] in
/-- At an obstacle nothing has happened to the log. -/
theorem sameLog_haltedAt (p : Policy α) (core : Core α) (fault : WiringFault) :
    p.SameLog (p.haltedAt core fault) := by
  cases p with
  | fuzzy c =>
    cases fault with
    | _ => exact ⟨rfl, rfl, rfl⟩
  | monitor c =>
    cases fault with
    | _ => exact ⟨rfl, rfl, rfl⟩

theorem length_machines_sample (p : Policy α) (core : Core α) (t : Testbed α) :
    (p.sample core t).testbed.machines.length = t.machines.length := by
  cases p with
  | fuzzy c =>
    show (core.sample _ c.wired).testbed.machines.length = _
    rw [Core.machines_sample]
    exact (Controller.length_sampleMachines t.machines c.channels).1
  | monitor c =>
    show (core.sample t c.wired).testbed.machines.length = _
    rw [Core.machines_sample]

end Policy

/-! ## §3. The rows of a run. -/

namespace Station

/-- The row of a control of the station. -/
def row (s : Station α) (stamp : Int) : List (Cell α) :=
  s.manager.policy.row s.manager.core s.testbed stamp

/-- The columns of the log, for the targets of the station. -/
def columns (s : Station α) : List String :=
  s.manager.policy.columns s.manager.core s.testbed.machines

/-- How many targets there are. -/
def aims (s : Station α) : Nat := s.manager.core.targets.entries.length

/-- **The rows of the controls of a run**, in order. -/
def rows (s : Station α) (run : List (Int × Action α)) : List (List (Cell α)) :=
  (s.controls run).map fun x => x.2.row x.1

/-- Nothing happens to the log between two stations. -/
structure SameLog (s s' : Station α) : Prop where
  policy : s.manager.policy.SameLog s'.manager.policy
  machines : s'.testbed.machines.length = s.testbed.machines.length
  storage : s'.storage = s.storage

omit [Scalar α] in
theorem SameLog.refl (s : Station α) : s.SameLog s := ⟨.refl _, rfl, rfl⟩

omit [Scalar α] in
theorem SameLog.attempt {β : Type} {s : Station α} {r : Except (Error α) β} {f : β → Station α}
    (hf : ∀ v, r = .ok v → s.SameLog (f v)) : s.SameLog (s.attempt r f).station := by
  cases r with
  | error e => exact .refl s
  | ok v => exact hf v rfl

/-- **Quiet actions** leave the log alone. -/
theorem sameLog_quiet (s : Station α) (stamp : Int) {a : Action α} (ha : a.isQuiet = true) :
    s.SameLog (s.perform stamp a).station := by
  cases a with
  -- Settings reach the core, and of the policy nothing but the smoothing factor.
  | bind => exact ⟨.refl _, rfl, rfl⟩
  | setTarget m value => exact .attempt fun _ _ => ⟨.refl _, rfl, rfl⟩
  | clearTargets => exact ⟨.refl _, rfl, rfl⟩
  | setEstimator m kind => exact .attempt fun _ _ => ⟨.refl _, rfl, rfl⟩
  | setSmoother m smoother => exact ⟨.refl _, rfl, rfl⟩
  | setSampling ms => exact .attempt fun _ _ => ⟨.refl _, rfl, rfl⟩
  | setControl ms => exact .attempt fun _ _ => ⟨.refl _, rfl, rfl⟩
  | setDataLog path => exact ⟨.refl _, rfl, rfl⟩
  | setResetsEachInterval on => exact ⟨.refl _, rfl, rfl⟩
  | setFactor factor =>
    exact .attempt fun p hp => ⟨Policy.sameLog_withFactor (mapError_eq_ok_iff.mp hp), rfl, rfl⟩
  | apply config =>
    have hpolicy : s.manager.policy.SameLog (s.manager.apply config).state.policy :=
      Manager.apply_invariant (P := fun m => s.manager.policy.SameLog m.policy)
        (fun _ _ _ _ hm _ => hm)
        (fun _ _ hm hfactor => hm.trans (Policy.sameLog_withFactor hfactor)) (.refl _)
    exact ⟨hpolicy, rfl, rfl⟩
  | observe o => exact ⟨.refl _, rfl, rfl⟩
  -- Whatever happens to the testbed, it keeps its machines.
  | feed items => exact ⟨.refl _, length_feed s.testbed items, rfl⟩
  | failMachine index r => exact ⟨.refl _, List.length_modify _ _ _, rfl⟩
  | failOutput m => exact ⟨.refl _, rfl, rfl⟩
  | refuse index on => exact ⟨.refl _, List.length_modify _ _ _, rfl⟩
  | setShare index r share =>
    show s.SameLog (s.setShare index r share).station
    unfold setShare
    cases s.testbed.machines[index]? with
    | none => exact .refl s
    | some m => exact .attempt fun _ _ => ⟨.refl _, List.length_modify _ _ _, rfl⟩
  | sample => exact ⟨Policy.sameLog_sample _ _ _, Policy.length_machines_sample _ _ _, rfl⟩
  | pace => exact ⟨.refl _, rfl, rfl⟩
  | reset | control | runUntil _ _ => cases ha

/-- **What holds of the log in a run**, of the station and the controls so far: every row has
the width that its targets give it and, as long as that is the width of the header, the log
holds all the rows. -/
structure Logging (start : Station α) (path : String) (columns : List String) (s : Station α)
    (past : List (Int × Station α)) : Prop where
  machines : s.testbed.machines.length = start.testbed.machines.length
  channels : s.manager.policy.channels = start.manager.policy.channels
  counted : s.manager.policy.counters.controls = UInt64.ofNat past.length
  width : ∀ x ∈ past, (x.2.row x.1).length
    = start.manager.policy.fieldCount start.testbed.machines.length x.2.aims
  text : (∀ x ∈ past, (x.2.row x.1).length = columns.length) →
    ∃ log, s.manager.policy.log? = some log ∧ log.path = path
      ∧ log.Holds s.storage columns.length (headerLine columns
          ++ String.join (past.map fun x => rowLine ((x.2.row x.1).map Cell.text)))

section Logging

variable {start s s' : Station α} {path : String} {columns : List String}
  {past : List (Int × Station α)}

theorem Logging.sameLog (h : Logging start path columns s past) (hs : s.SameLog s') :
    Logging start path columns s' past where
  machines := hs.machines.trans h.machines
  channels := hs.policy.channels.trans h.channels
  counted := (congrArg Counters.controls hs.policy.counters).trans h.counted
  width := h.width
  text := fun hwide => by
    obtain ⟨log, hlog, hpath, hholds⟩ := h.text hwide
    exact ⟨log, hs.policy.log.trans hlog, hpath, hs.storage ▸ hholds⟩

/-- **One control more** is one row more. -/
theorem Logging.control (h : Logging start path columns s past)
    (wired : start.manager.policy.channels ≤ start.testbed.machines.length) (stamp : Int) :
    Logging start path columns (s.control stamp).station (past ++ [(stamp, s)]) := by
  obtain ⟨_, _, hcounted, hchannels, hmachines⟩ :=
    s.manager.policy.control_logged s.manager.core s.testbed s.storage stamp
  refine ⟨hmachines.trans h.machines, hchannels.trans h.channels, ?_, ?_, ?_⟩
  · show (s.manager.policy.control _ _ _ _).policy.counters.controls = _
    rw [hcounted, h.counted, List.length_append]
    exact (UInt64.ofNat_add _ _).symm
  · intro x hx
    rcases List.mem_append.mp hx with hx | hx
    · exact h.width x hx
    · -- The machines and the levels are as many as at the start; the targets are those of `s`.
      rw [List.mem_singleton.mp hx]
      have hwidth : (s.row stamp).length = s.manager.policy.fieldCount _ s.aims :=
        Policy.length_row _ _ _ _ (by rw [h.channels, h.machines]; exact wired)
      unfold Policy.fieldCount at hwidth ⊢
      rw [hwidth, h.channels, h.machines]
  · -- All rows so far had the width of the header, so the writer expects that width again.
    intro hwide
    obtain ⟨log, hopen, hpath, hholds⟩ := h.text fun x hx => hwide x (List.mem_append_left _ hx)
    have hrow : (s.row stamp).length = columns.length :=
      hwide (stamp, s) (List.mem_append_right _ (List.mem_singleton_self _))
    obtain ⟨⟨log', hlog', hpath', hholds'⟩, _⟩ := Policy.control_holds hopen hholds hrow
    refine ⟨log', hlog', hpath'.trans hpath, ?_⟩
    rw [List.map_append, String.join_append, ← String.append_assoc, List.map_singleton,
      join_singleton]
    exact hholds'

end Logging

/-- **A run begins** with a reset that succeeded: the log holds the header. -/
theorem logging_reset {s : Station α} {path : String} (hpath : s.manager.core.dataLog = some path)
    (hreset : s.reset.result = .ok .done) :
    Logging s.reset.station path s.reset.station.columns s.reset.station []
      ∧ s.reset.station.manager.policy.channels ≤ s.reset.station.testbed.machines.length
      ∧ s.reset.station.columns.length
        = s.reset.station.manager.policy.fieldCount s.reset.station.testbed.machines.length
            s.reset.station.aims := by
  obtain ⟨hopen, hstation⟩ := reset_ok hreset
  obtain ⟨log, hlog, hname, hholds⟩ := log_beginning hpath hopen
  have hcolumns : (s.beginning s.reopened.log s.reopened.storage).columns
      = s.manager.policy.columns s.manager.core.resetStatistics s.testbed.machines := by
    unfold columns
    exact congrFun (congrFun (Policy.columns_begun _ _ _ _) _) _
  rw [hstation]
  refine ⟨⟨rfl, rfl, ?_, fun x hx => absurd hx List.not_mem_nil,
    fun _ => ⟨log, hlog, hname, ?_⟩⟩, Policy.channels_begun_le _ _ _ _,
    Policy.length_columns_begun _ _ _ _⟩
  · show (s.manager.policy.begun _ _ _).counters.controls = _
    rw [Policy.counters_begun]
    rfl
  · rw [List.map_nil, String.join_nil, String.append_empty, hcolumns]
    exact hholds _

/-- **The log is complete**: the file is the header and one line for each control of the run,
each row is as wide as the header, and the controls are counted. -/
structure CompleteLog (start : Station α) (run : List (Int × Action α)) (path : String) : Prop where
  text : (start.after run).storage.read? path = some (headerLine start.columns
    ++ String.join ((start.rows run).map fun row => rowLine (row.map Cell.text)))
  rectangular : ∀ row ∈ start.rows run, row.length = start.columns.length
  counted : (start.after run).manager.policy.counters.controls
    = UInt64.ofNat (start.rows run).length

/-- **When the log of a run is complete.**  After a reset that succeeded, and up to the next
one, the log is complete if and only if at every control there are as many targets as there
were at the reset. -/
theorem completeLog_iff {s : Station α} {path : String}
    (hpath : s.manager.core.dataLog = some path) (stamp : Int)
    (hreset : (s.perform stamp .reset).result = .ok .done) {run : List (Int × Action α)}
    (hrun : ∀ x ∈ run, x.2 ≠ .reset) :
    (s.perform stamp .reset).station.CompleteLog run path
      ↔ ∀ x ∈ (s.perform stamp .reset).station.controls run,
        x.2.aims = (s.perform stamp .reset).station.aims := by
  obtain ⟨hstart, hwired, hcolumns⟩ := logging_reset hpath hreset
  have hlogging := controls_induction (P := Logging s.reset.station path s.reset.station.columns)
    (fun _ _ _ h => h.sameLog ⟨.refl _, rfl, rfl⟩)
    (fun s' _ stamp' _ ha h => h.sameLog (s'.sameLog_quiet stamp' ha))
    (fun _ _ stamp' h => h.control hwired stamp') hstart hrun
  rw [List.nil_append] at hlogging
  -- A row is as wide as the header exactly if its targets are as many as at the reset.
  have hwide : ∀ x ∈ s.reset.station.controls run,
      (x.2.row x.1).length = s.reset.station.columns.length ↔ x.2.aims = s.reset.station.aims := by
    intro x hx
    rw [hlogging.width x hx, hcolumns]
    unfold Policy.fieldCount
    omega
  constructor
  · intro hcomplete x hx
    exact (hwide x hx).mp (hcomplete.rectangular _ (List.mem_map_of_mem hx))
  · intro haims
    have hrows : ∀ x ∈ s.reset.station.controls run,
        (x.2.row x.1).length = s.reset.station.columns.length :=
      fun x hx => (hwide x hx).mpr (haims x hx)
    obtain ⟨log, _, rfl, hholds⟩ := hlogging.text hrows
    refine ⟨?_, ?_, ?_⟩
    · show (s.reset.station.after run).storage.read? log.path = _
      rw [hholds.read]
      unfold rows
      rw [List.map_map]
      rfl
    · intro row hrow
      obtain ⟨x, hx, rfl⟩ := List.mem_map.mp hrow
      exact hrows x hx
    · show (s.reset.station.after run).manager.policy.counters.controls = _
      rw [hlogging.counted]
      unfold rows
      rw [List.length_map]
      rfl

/-- A station for trials that logs. -/
def loggingTrial : Station Extended :=
  trial.after [(0, .setDataLog (some "log.csv"))]

theorem reset_loggingTrial : (loggingTrial.perform 0 .reset).result = .ok .done :=
  Performed.result_of_isDone (by decide +kernel)

/-- With another value of the same target between two controls the log is complete. -/
theorem completeLog_trial :
    (loggingTrial.perform 0 .reset).station.CompleteLog
      [(0, .control), (1, .setTarget .responseTime 2.0), (1, .control)] "log.csv" := by
  have hrun : ∀ x ∈ ([(0, .control), (1, .setTarget .responseTime 2.0), (1, .control)] :
      List (Int × Action Extended)), x.2 ≠ .reset := by
    simp
  refine (completeLog_iff (s := loggingTrial) rfl 0 reset_loggingTrial hrun).mpr ?_
  decide +kernel

/-- With a second target before the first control the row is wider than the header. -/
theorem not_completeLog_trial :
    (loggingTrial.perform 0 .reset).result = .ok .done
      ∧ ¬ (loggingTrial.perform 0 .reset).station.CompleteLog
        [(0, .setTarget .throughput 1.0), (0, .control)] "log.csv" := by
  refine ⟨reset_loggingTrial, fun h => ?_⟩
  have hwide : ∀ row ∈ (loggingTrial.perform 0 .reset).station.rows
      [(0, .setTarget .throughput 1.0), (0, .control)],
      row.length = (loggingTrial.perform 0 .reset).station.columns.length := h.rectangular
  revert hwide
  decide +kernel

end Station

end CapacityControl.Control
