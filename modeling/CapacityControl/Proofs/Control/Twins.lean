/-
  CapacityControl.Proofs.Control.Twins
  ────────────────────────────────────
  TWINS.  Two stations in a run are twins if they differ in nothing that a run ever reads
  again, but for the times in their logs (`Station.Twin`).  Every operation, and every further
  reset, keeps twins twins and is answered alike (`Station.Twin.perform`), so twins stay twins
  through any run of the same actions, whenever those happen (`Station.Twin.run`).
-/
import CapacityControl.Proofs.Control.Applying
import CapacityControl.Proofs.Control.Wiring

namespace CapacityControl.Control

open Log

variable {α : Type} [Scalar α]

/-! ## §1. A policy without its log. -/

namespace Policy

/-- The policy with another log. -/
def withLog (p : Policy α) (log : Option DataLog) : Policy α :=
  match p with
  | fuzzy c => fuzzy { c with log := log }
  | monitor c => monitor { c with log := log }

/-- The policy without a log. -/
def unlogged (p : Policy α) : Policy α := p.withLog none

/-- What a row tells, besides its time. -/
def cells (p : Policy α) (core : Core α) (t : Testbed α) : List (Cell α) := (p.row core t 0).tail

theorem row_eq (p : Policy α) (core : Core α) (t : Testbed α) (stamp : Int) :
    p.row core t stamp = .stamp stamp :: p.cells core t := by
  cases p with
  | fuzzy c => rfl
  | monitor c => rfl

/-- **A sample** leaves the log alone, and does not depend on it. -/
theorem sample_unlogged (p : Policy α) (core : Core α) (t : Testbed α) :
    p.unlogged.sample core t
      = { p.sample core t with policy := (p.sample core t).policy.unlogged } := by
  cases p with
  | fuzzy c => rfl
  | monitor c => rfl

/-- **A control** comes to the same without a log, at any time; the log gets a row. -/
theorem control_unlogged (p : Policy α) (core : Core α) (t : Testbed α) (storage : Storage)
    (stamp : Int) :
    let logged := writeRow p.log? storage (p.row core t stamp)
    let quiet := p.unlogged.control core t .fresh 0
    p.control core t storage stamp
      = { quiet with
          policy := quiet.policy.withLog logged.log
          storage := logged.storage
          warnings := quiet.warnings ++ logged.warnings } := by
  cases p with
  | fuzzy c =>
    simp [control, Controlled.map, Controller.control, unlogged, withLog, log?, row, writeRow,
      Controller.decide, Controller.managed]
  | monitor c =>
    simp [control, Controlled.map, Monitor.control, unlogged, withLog, log?, row, writeRow]

theorem control_deferring_core (d : Deferred α) (p : Policy α) (core : Core α) (t : Testbed α)
    (storage : Storage) (stamp : Int) :
    p.control (core.deferring d) t storage stamp
      = { p.control core t storage stamp with
          core := (p.control core t storage stamp).core.deferring d } := by
  cases p with
  | fuzzy c =>
    show Controlled.map fuzzy (c.control _ _ _ _) = _
    unfold Controller.control
    rw [Core.endInterval_deferring]
    rfl
  | monitor c =>
    show Controlled.map monitor (c.control _ _ _ _) = _
    unfold Monitor.control
    rw [Core.endInterval_deferring]
    rfl

theorem sample_deferring_core (d : Deferred α) (p : Policy α) (core : Core α) (t : Testbed α) :
    p.sample (core.deferring d) t
      = { p.sample core t with core := (p.sample core t).core.deferring d } := by
  cases p with
  | fuzzy c =>
    show Sampled.map fuzzy (c.sample _ _) = _
    unfold Controller.sample
    dsimp only
    rw [Core.sample_deferring]
    rfl
  | monitor c =>
    show Sampled.map monitor (c.sample _ _) = _
    unfold Monitor.sample
    rw [Core.sample_deferring]
    rfl

omit [Scalar α] in
theorem unlogged_withLog (p : Policy α) (log : Option DataLog) :
    (p.withLog log).unlogged = p.unlogged := by
  cases p with
  | fuzzy c => rfl
  | monitor c => rfl

omit [Scalar α] in
theorem columns_unlogged (p : Policy α) : p.unlogged.columns = p.columns := by
  cases p with
  | fuzzy c => rfl
  | monitor c => rfl

theorem row_unlogged (p : Policy α) (core : Core α) (t : Testbed α) (stamp : Int) :
    p.unlogged.row core t stamp = p.row core t stamp := by
  cases p with
  | fuzzy c => rfl
  | monitor c => rfl

theorem withFactor_unlogged (p : Policy α) (factor : α) :
    p.unlogged.withFactor factor = (p.withFactor factor).map unlogged := by
  cases p with
  | fuzzy c =>
    show ((ensureFactor _ _).map _).map fuzzy = (((ensureFactor _ _).map _).map fuzzy).map _
    cases ensureFactor .smoothingFactor factor with
    | error r => rfl
    | ok f => rfl
  | monitor c => rfl

omit [Scalar α] in
theorem unlogged_deferring (p : Policy α) (d : Deferred α) :
    (p.deferring d).unlogged = p.unlogged.deferring d := by
  cases p with
  | fuzzy c => rfl
  | monitor c => rfl

section Alike

variable {p p' : Policy α} {core core' : Core α} {t t' : Testbed α} {d : Deferred α}
  (hpolicy : p'.unlogged = p.unlogged) (hcore : core' = core.deferring d) (htestbed : t' = t)

include hpolicy hcore htestbed

/-- **Policies that differ in their logs** sample alike. -/
theorem sample_alike :
    (p'.sample core' t').policy.unlogged = (p.sample core t).policy.unlogged
      ∧ (p'.sample core' t').core = (p.sample core t).core.deferring d
      ∧ (p'.sample core' t').testbed = (p.sample core t).testbed
      ∧ (p'.sample core' t').warnings = (p.sample core t).warnings := by
  subst hcore htestbed
  -- Both samples come to the one of their common policy without a log.
  have hquiet := p'.sample_unlogged (core.deferring d) t'
  rw [hpolicy, sample_deferring_core, sample_unlogged] at hquiet
  exact ⟨(congrArg Sampled.policy hquiet).symm, (congrArg Sampled.core hquiet).symm,
    (congrArg Sampled.testbed hquiet).symm, (congrArg Sampled.warnings hquiet).symm⟩

/-- They control alike, but for what they write. -/
theorem control_alike (storage storage' : Storage) (stamp stamp' : Int) :
    (p'.control core' t' storage' stamp').policy.unlogged
        = (p.control core t storage stamp).policy.unlogged
      ∧ (p'.control core' t' storage' stamp').core
        = (p.control core t storage stamp).core.deferring d
      ∧ (p'.control core' t' storage' stamp').testbed = (p.control core t storage stamp).testbed
      ∧ (p'.control core' t' storage' stamp').outcome = (p.control core t storage stamp).outcome
      ∧ ((writeRow p.log? storage (p.row core t stamp)).warnings = [] →
        (writeRow p'.log? storage' (p'.row core' t' stamp')).warnings = [] →
        (p'.control core' t' storage' stamp').warnings
          = (p.control core t storage stamp).warnings) := by
  subst hcore htestbed
  rw [control_unlogged p, control_unlogged p', hpolicy, control_deferring_core]
  refine ⟨?_, rfl, rfl, rfl, fun hquiet hquiet' => ?_⟩
  · dsimp only
    rw [unlogged_withLog, unlogged_withLog]
  · dsimp only
    rw [hquiet, hquiet']

theorem cells_alike : p'.cells core' t' = p.cells core t := by
  subst hcore htestbed
  show (p'.row core t' 0).tail = (p.row core t' 0).tail
  rw [← row_unlogged p, ← row_unlogged p', hpolicy]

end Alike

/-! What waits for a reset is not read before the reset is done. -/

theorem begun_deferring (p : Policy α) (core : Core α) (d : Deferred α) (t : Testbed α)
    (log : Option DataLog) : p.begun (core.deferring d) t log = p.begun core t log := by
  cases p with
  | fuzzy c => rfl
  | monitor c => rfl

omit [Scalar α] in
theorem columns_deferring (p : Policy α) (core : Core α) (d : Deferred α)
    (machines : List (Machine α)) : p.columns (core.deferring d) machines = p.columns core machines := by
  cases p with
  | fuzzy c => rfl
  | monitor c => rfl

omit [Scalar α] in
theorem obstacle?_deferring (p : Policy α) (core : Core α) (d : Deferred α) (t : Testbed α) :
    p.obstacle? (core.deferring d) t = p.obstacle? core t := by
  cases p with
  | fuzzy c => rfl
  | monitor c => rfl

omit [Scalar α] in
theorem haltedAt_deferring (p : Policy α) (core : Core α) (d : Deferred α) (fault : WiringFault) :
    p.haltedAt (core.deferring d) fault = p.haltedAt core fault := by
  cases fault with
  | _ => cases p <;> rfl

/-- A run begins the same, whatever log the policy had before. -/
theorem begun_unlogged (p : Policy α) (core : Core α) (t : Testbed α) (log : Option DataLog) :
    p.unlogged.begun core t log = p.begun core t log := by
  cases p with
  | fuzzy c => rfl
  | monitor c => rfl

theorem unlogged_begun (p : Policy α) (core : Core α) (t : Testbed α) (log : Option DataLog) :
    (p.begun core t log).unlogged = p.begun core t none := by
  cases p with
  | fuzzy c => rfl
  | monitor c => rfl

omit [Scalar α] in
theorem obstacle?_unlogged (p : Policy α) (core : Core α) (t : Testbed α) :
    p.unlogged.obstacle? core t = p.obstacle? core t := by
  unfold obstacle?
  cases p with
  | fuzzy c => cases core.wire t <;> rfl
  | monitor c => cases core.wire t <;> rfl

omit [Scalar α] in
theorem unlogged_haltedAt (p : Policy α) (core : Core α) (fault : WiringFault) :
    (p.haltedAt core fault).unlogged = p.unlogged.haltedAt core fault := by
  cases p with
  | fuzzy c =>
    cases fault with
    | _ => rfl
  | monitor c =>
    cases fault with
    | _ => rfl

omit [Scalar α] in
theorem channels_unlogged (p : Policy α) : p.unlogged.channels = p.channels := by
  cases p with
  | fuzzy c => rfl
  | monitor c => rfl

omit [Scalar α] in
theorem counters_unlogged (p : Policy α) : p.unlogged.counters = p.counters := by
  cases p with
  | fuzzy c => rfl
  | monitor c => rfl

end Policy

/-! ## §2. Logs with other times. -/

/-- The text of a log, by its columns and its rows, each with its time. -/
def logText (columns : List String) (rows : List (Int × List (Cell α))) : String :=
  headerLine columns
    ++ String.join (rows.map fun row => rowLine ((Cell.stamp row.1 :: row.2).map Cell.text))

namespace Station

/-- **The log of a station** holds these rows and no others, each as wide as the next will be. -/
def Logs (s : Station α) (path : String) (columns : List String)
    (rows : List (Int × List (Cell α))) : Prop :=
  ∃ log, s.manager.policy.log? = some log ∧ log.path = path
    ∧ log.Holds s.storage (s.manager.policy.fieldCount s.testbed.machines.length s.aims)
        (logText columns rows)

section Logs

variable {s s' : Station α} {path : String} {columns : List String}
  {rows : List (Int × List (Cell α))}

theorem Logs.read (h : s.Logs path columns rows) :
    s.storage.read? path = some (logText columns rows) := by
  obtain ⟨log, _, rfl, hholds⟩ := h
  exact hholds.read

theorem Logs.sameLog (h : s.Logs path columns rows) (hs : s.SameLog s') (haims : s'.aims = s.aims) :
    s'.Logs path columns rows := by
  obtain ⟨log, hlog, hpath, hholds⟩ := h
  refine ⟨log, hs.policy.log.trans hlog, hpath, ?_⟩
  unfold Policy.fieldCount at hholds ⊢
  rw [hs.storage, hs.policy.channels, hs.machines, haims]
  exact hholds

/-- **A control** adds a row, and does so without a warning. -/
theorem Logs.control (h : s.Logs path columns rows)
    (hwired : s.manager.policy.channels ≤ s.testbed.machines.length) (stamp : Int) :
    (s.control stamp).station.Logs path columns
        (rows ++ [(stamp, s.manager.policy.cells s.manager.core s.testbed)])
      ∧ (writeRow s.manager.policy.log? s.storage (s.row stamp)).warnings = [] := by
  obtain ⟨log, hlog, hpath, hholds⟩ := h
  obtain ⟨_, _, _, hchannels, hmachines⟩ :=
    s.manager.policy.control_logged s.manager.core s.testbed s.storage stamp
  have haims : (s.control stamp).station.aims = s.aims := by
    unfold aims
    rw [(s.stays_control stamp).targets]
  have hwidth := s.manager.policy.length_row s.manager.core s.testbed stamp hwired
  obtain ⟨⟨log', hlog', hpath', hholds'⟩, hwarnings⟩ := Policy.control_holds hlog hholds hwidth
  refine ⟨⟨log', hlog', hpath'.trans hpath, ?_⟩, hwarnings⟩
  -- The next row will be as wide: machines, targets and channels stay as they are.
  have hcount : (s.control stamp).station.manager.policy.fieldCount
        (s.control stamp).station.testbed.machines.length (s.control stamp).station.aims
      = s.manager.policy.fieldCount s.testbed.machines.length s.aims := by
    rw [haims]
    show 4 + 2 * (s.manager.policy.control _ _ _ _).testbed.machines.length + _
      + (s.manager.policy.control _ _ _ _).policy.channels = _
    rw [hchannels, hmachines]
    rfl
  rw [hcount]
  unfold logText
  rw [List.map_append, String.join_append, ← String.append_assoc, List.map_singleton,
    join_singleton, ← Policy.row_eq]
  exact hholds'

/-- The next log can be opened where this one is. -/
theorem Logs.reopened (h : s.Logs path columns rows) (hpath : s.manager.core.dataLog = some path) :
    s.reopened.result = .ok () := by
  obtain ⟨log, hlog, rfl, hholds⟩ := h
  unfold Station.reopened
  rw [hlog, hpath]
  exact reopen_located hholds.located

/-- A new run begins with a log without rows. -/
theorem logs_beginning (hpath : s.manager.core.dataLog = some path)
    (hopen : s.reopened.result = .ok ()) :
    (s.beginning s.reopened.log s.reopened.storage).Logs path
      (s.manager.policy.columns s.manager.core.resetStatistics s.testbed.machines) [] := by
  obtain ⟨log, hlog, hname, hholds⟩ := log_beginning hpath hopen
  refine ⟨log, hlog, hname, ?_⟩
  unfold logText
  rw [List.map_nil, String.join_nil, String.append_empty]
  exact hholds _

end Logs

/-! ## §3. Twins. -/

/-- **Twins** are stations in a run that only differ in what no run reads: their periods, their
observers, their pacers, their files, and the times in their logs. -/
structure Twin (s s' : Station α) : Prop where
  bound : s.manager.core.bound = true
  core : ∃ d : Deferred α, d.dataLog = s.manager.core.dataLog
    ∧ s'.manager.core = s.manager.core.deferring d
  policy : s'.manager.policy.unlogged = s.manager.policy.unlogged
  testbed : s'.testbed = s.testbed
  wired : s.manager.policy.channels ≤ s.testbed.machines.length
  quiet : s.manager.core.dataLog = none →
    s.manager.policy.log? = none ∧ s'.manager.policy.log? = none
  logs : ∀ path, s.manager.core.dataLog = some path → ∃ columns rows rows',
    s.Logs path columns rows ∧ s'.Logs path columns rows' ∧ rows'.map Prod.snd = rows.map Prod.snd

section Twin

variable {s s' r r' : Station α}

theorem Twin.aims (h : Twin s s') : s'.aims = s.aims := by
  obtain ⟨d, _, hcore⟩ := h.core
  unfold Station.aims
  rw [hcore]
  rfl

theorem Twin.dataLog (h : Twin s s') : s'.manager.core.dataLog = s.manager.core.dataLog := by
  obtain ⟨d, hlog, hcore⟩ := h.core
  rw [hcore]
  exact hlog

/-- **Twins stay twins** as long as nothing happens to their logs and settings, and the rest of
them changes alike. -/
theorem Twin.sameLog (h : Twin s s') (hs : s.SameLog r) (hs' : s'.SameLog r')
    (hsettings : ∃ estimators smoothers, r.manager.core
      = { s.manager.core with estimators := estimators, smoothers := smoothers })
    (hcore : ∃ d : Deferred α, d.dataLog = s.manager.core.dataLog
      ∧ r'.manager.core = r.manager.core.deferring d)
    (hpolicy : r'.manager.policy.unlogged = r.manager.policy.unlogged)
    (htestbed : r'.testbed = r.testbed) : Twin r r' := by
  obtain ⟨_, _, hsettings⟩ := hsettings
  have hdataLog : r.manager.core.dataLog = s.manager.core.dataLog := by rw [hsettings]
  have haims : r.aims = s.aims := by
    unfold Station.aims
    rw [hsettings]
  -- The twin gets its targets from `r`, so they stay the same on its side too.
  have haims' : r'.aims = s'.aims := by
    obtain ⟨d, _, hcore⟩ := hcore
    rw [h.aims, ← haims]
    unfold Station.aims
    rw [hcore]
    rfl
  refine ⟨?_, hdataLog ▸ hcore, hpolicy, htestbed, ?_, fun hnone => ?_, fun path hpath => ?_⟩
  · rw [hsettings]
    exact h.bound
  · rw [hs.policy.channels, hs.machines]
    exact h.wired
  · obtain ⟨hlog, hlog'⟩ := h.quiet (hdataLog ▸ hnone)
    exact ⟨hs.policy.log.trans hlog, hs'.policy.log.trans hlog'⟩
  · obtain ⟨columns, rows, rows', hlogs, hlogs', hrows⟩ := h.logs path (hdataLog ▸ hpath)
    exact ⟨columns, rows, rows', hlogs.sameLog hs haims, hlogs'.sameLog hs' haims', hrows⟩

/-- The same change of both testbeds. -/
theorem Twin.withTestbed (h : Twin s s') {t : Testbed α}
    (ht : t.machines.length = s.testbed.machines.length) :
    Twin { s with testbed := t } { s' with testbed := t } :=
  h.sameLog ⟨.refl _, ht, rfl⟩ ⟨.refl _, ht.trans (by rw [h.testbed]), rfl⟩ ⟨_, _, rfl⟩ h.core
    h.policy rfl

/-- **Twins sample alike.** -/
theorem Twin.sample (h : Twin s s') :
    Twin s.sample.station s'.sample.station ∧ s'.sample.warnings = s.sample.warnings := by
  obtain ⟨d, hdataLog, hcore⟩ := h.core
  obtain ⟨hpolicy, hcore, htestbed, hwarnings⟩ := Policy.sample_alike h.policy hcore h.testbed
  obtain ⟨t, wired, hstatistics⟩ := s.core_sample
  have hsettings := s.manager.core.core_sample t wired
  rw [← hstatistics] at hsettings
  exact ⟨h.sameLog (s.sameLog_quiet 0 (a := .sample) rfl) (s'.sameLog_quiet 0 (a := .sample) rfl)
    hsettings ⟨d, hdataLog, hcore⟩ hpolicy htestbed, hwarnings⟩

theorem Twin.wired' (h : Twin s s') :
    s'.manager.policy.channels ≤ s'.testbed.machines.length := by
  rw [← Policy.channels_unlogged, h.policy, Policy.channels_unlogged, h.testbed]
  exact h.wired

/-- The rows of twins are written without a warning. -/
theorem Twin.writes (h : Twin s s') (stamp stamp' : Int) :
    (writeRow s.manager.policy.log? s.storage (s.row stamp)).warnings = []
      ∧ (writeRow s'.manager.policy.log? s'.storage (s'.row stamp')).warnings = [] := by
  cases hpath : s.manager.core.dataLog with
  | none =>
    obtain ⟨hnone, hnone'⟩ := h.quiet hpath
    rw [hnone, hnone']
    exact ⟨rfl, rfl⟩
  | some path =>
    obtain ⟨_, _, _, hlogs, hlogs', _⟩ := h.logs path hpath
    exact ⟨(hlogs.control h.wired stamp).2, (hlogs'.control h.wired' stamp').2⟩

/-- **Twins control alike**, whenever they do. -/
theorem Twin.control (h : Twin s s') (stamp stamp' : Int) :
    Twin (s.control stamp).station (s'.control stamp').station
      ∧ (s'.control stamp').result = (s.control stamp).result
      ∧ (s'.control stamp').warnings = (s.control stamp).warnings := by
  obtain ⟨d, hdataLog, hcore⟩ := h.core
  obtain ⟨hpolicy, hnext, htestbed, houtcome, hwarnings⟩ :=
    Policy.control_alike h.policy hcore h.testbed s.storage s'.storage stamp stamp'
  have hcells := Policy.cells_alike h.policy hcore h.testbed
  have hstays := s.stays_control stamp
  have hsettings : (s.control stamp).station.manager.core.bound = s.manager.core.bound
      ∧ (s.control stamp).station.manager.core.dataLog = s.manager.core.dataLog := by
    rw [s.core_control stamp]
    unfold Core.endInterval
    split
    · exact ⟨rfl, rfl⟩
    · exact ⟨rfl, rfl⟩
  obtain ⟨hlogged, _⟩ :=
    s.manager.policy.control_logged s.manager.core s.testbed s.storage stamp
  obtain ⟨hlogged', _⟩ :=
    s'.manager.policy.control_logged s'.manager.core s'.testbed s'.storage stamp'
  refine ⟨⟨hsettings.1.trans h.bound, ⟨d, hdataLog.trans hsettings.2.symm, hnext⟩, hpolicy,
    htestbed, ?_, fun hnone => ?_, fun path hpath => ?_⟩, ?_, ?_⟩
  · rw [hstays.channels, hstays.machines]
    exact h.wired
  · obtain ⟨hno, hno'⟩ := h.quiet (hsettings.2 ▸ hnone)
    rw [hno] at hlogged
    rw [hno'] at hlogged'
    exact ⟨hlogged, hlogged'⟩
  · -- Both logs get a row with the same cells.
    obtain ⟨columns, rows, rows', hlogs, hlogs', hrows⟩ := h.logs path (hsettings.2 ▸ hpath)
    refine ⟨columns, _, _, (hlogs.control h.wired stamp).1, (hlogs'.control h.wired' stamp').1, ?_⟩
    rw [List.map_append, List.map_append, hrows, hcells]
    rfl
  · exact congrArg (fun outcome => Except.ok (Reply.controlled outcome)) houtcome
  · exact hwarnings (h.writes stamp stamp').1 (h.writes stamp stamp').2

/-! ## §4. Resets of twins. -/

/-- **Runs that begin alike** begin with twins. -/
theorem twin_beginning (hbound : s.manager.core.bound = true)
    (hcore : ∃ d : Deferred α, d.dataLog = s.manager.core.dataLog
      ∧ s'.manager.core.resetStatistics = s.manager.core.resetStatistics.deferring d)
    (hbegun : ∀ core t, s'.manager.policy.begun core t none = s.manager.policy.begun core t none)
    (htestbed : s'.testbed = s.testbed) (hopen : s.reopened.result = .ok ())
    (hopen' : s'.reopened.result = .ok ()) :
    Twin (s.beginning s.reopened.log s.reopened.storage)
      (s'.beginning s'.reopened.log s'.reopened.storage) := by
  obtain ⟨d, hdataLog, hcore⟩ := hcore
  have hdataLog' : s'.manager.core.dataLog = s.manager.core.dataLog :=
    (congrArg Core.dataLog hcore).trans hdataLog
  have hnolog : ∀ q : Station α, q.manager.core.dataLog = none →
      (q.beginning q.reopened.log q.reopened.storage).manager.policy.log? = none := by
    intro q hnone
    refine (Policy.log?_begun _ _ _ _).trans ?_
    unfold Station.reopened
    rw [hnone]
    rfl
  refine ⟨hbound, ⟨d, hdataLog, hcore⟩, ?_, htestbed, ?_, fun hnone => ?_, fun path hpath => ?_⟩
  · show (s'.manager.policy.begun _ _ _).unlogged = (s.manager.policy.begun _ _ _).unlogged
    rw [Policy.unlogged_begun, Policy.unlogged_begun, hcore, htestbed, Policy.begun_deferring,
      hbegun]
  · exact Policy.channels_begun_le _ _ _ _
  · exact ⟨hnolog s hnone, hnolog s' (hdataLog'.trans hnone)⟩
  · have hcolumns : s'.manager.policy.columns s'.manager.core.resetStatistics s'.testbed.machines
        = s.manager.policy.columns s.manager.core.resetStatistics s.testbed.machines := by
      rw [hcore, htestbed, Policy.columns_deferring,
        ← Policy.columns_begun s'.manager.policy s.manager.core s.testbed none, hbegun,
        Policy.columns_begun]
    -- The columns depend on the targets, the machines and the kind of policy only.
    have hlogs' := logs_beginning (hdataLog'.trans hpath) hopen'
    rw [hcolumns] at hlogs'
    exact ⟨_, [], [], logs_beginning hpath hopen, hlogs', rfl⟩

/-- The next run of a twin can log. -/
theorem Twin.reopened (h : Twin s s') :
    s.reopened.result = .ok () ∧ s'.reopened.result = .ok () := by
  cases hpath : s.manager.core.dataLog with
  | none =>
    unfold Station.reopened
    rw [h.dataLog, hpath]
    exact ⟨rfl, rfl⟩
  | some path =>
    obtain ⟨_, _, _, hlogs, hlogs', _⟩ := h.logs path hpath
    exact ⟨hlogs.reopened hpath, hlogs'.reopened (h.dataLog.trans hpath)⟩

/-- **Twins reset alike.** -/
theorem Twin.reset (h : Twin s s') :
    Twin s.reset.station s'.reset.station ∧ s'.reset.result = s.reset.result := by
  obtain ⟨d, hdataLog, hcore⟩ := h.core
  have hbound' : s'.manager.core.bound = true := by
    rw [hcore]
    exact h.bound
  have hstatistics : s'.manager.core.resetStatistics
      = s.manager.core.resetStatistics.deferring d := by
    rw [hcore]
    rfl
  have hobstacle : s'.obstacle? = s.obstacle? := by
    unfold Station.obstacle?
    rw [hstatistics, h.testbed, Policy.obstacle?_deferring, ← Policy.obstacle?_unlogged, h.policy,
      Policy.obstacle?_unlogged]
  cases hfault : s.obstacle? with
  | some fault =>
    -- Both stop at the same obstacle, and their logs stay open.
    obtain ⟨hstation, hresult⟩ := reset_halts h.bound hfault
    obtain ⟨hstation', hresult'⟩ := reset_halts hbound' (hobstacle.trans hfault)
    rw [hstation, hstation', hresult, hresult']
    refine ⟨h.sameLog ⟨Policy.sameLog_haltedAt _ _ _, rfl, rfl⟩
      ⟨Policy.sameLog_haltedAt _ _ _, rfl, rfl⟩ ⟨_, _, rfl⟩ ⟨d, hdataLog, hstatistics⟩ ?_
      h.testbed, rfl⟩
    show (s'.manager.policy.haltedAt _ _).unlogged = (s.manager.policy.haltedAt _ _).unlogged
    rw [Policy.unlogged_haltedAt, Policy.unlogged_haltedAt, h.policy, hstatistics,
      Policy.haltedAt_deferring]
  | none =>
    -- Both begin a run; the logs of twins can always be reopened.
    obtain ⟨hstation, hresult⟩ := reset_begins h.bound hfault
    obtain ⟨hstation', hresult'⟩ := reset_begins hbound' (hobstacle.trans hfault)
    obtain ⟨hopen, hopen'⟩ := h.reopened
    rw [hstation, hstation', hresult, hresult', hopen, hopen']
    refine ⟨twin_beginning h.bound ⟨d, hdataLog, hstatistics⟩ (fun core t => ?_) h.testbed hopen
      hopen', rfl⟩
    rw [← Policy.begun_unlogged, h.policy, Policy.begun_unlogged]

/-! ## §5. Runs of twins. -/

/-- The same happens to both testbeds. -/
theorem Twin.changing (h : Twin s s') {f : Testbed α → Testbed α}
    (hf : (f s.testbed).machines.length = s.testbed.machines.length) :
    Twin { s with testbed := f s.testbed } { s' with testbed := f s'.testbed } := by
  rw [h.testbed]
  exact h.withTestbed hf

/-- **Twins stay twins**, and answer alike, whatever operation or reset comes, and whenever. -/
theorem Twin.perform (h : Twin s s') (stamp stamp' : Int) {a : Action α}
    (ha : a.isOperation = true ∨ a = .reset) :
    Twin (s.perform stamp a).station (s'.perform stamp' a).station
      ∧ (s'.perform stamp' a).result = (s.perform stamp a).result
      ∧ (s'.perform stamp' a).warnings = (s.perform stamp a).warnings := by
  rcases ha with ha | rfl
  · cases a with
    | feed items =>
      exact ⟨h.changing (f := items.foldl push) (length_feed s.testbed items), rfl, rfl⟩
    | failMachine index r =>
      exact ⟨h.changing (f := (·.withMachine index (·.withSensor r Sensor.failNext)))
        (List.length_modify _ _ _), rfl, rfl⟩
    | failOutput m =>
      exact ⟨h.changing (f := (·.withOutput m Sensor.failNext)) rfl, rfl, rfl⟩
    | refuse index on =>
      exact ⟨h.changing (f := (·.withMachine index fun m => { m with refuses := on }))
        (List.length_modify _ _ _), rfl, rfl⟩
    | sample => exact ⟨h.sample.1, rfl, h.sample.2⟩
    | control => exact h.control stamp stamp'
    | _ => cases ha
  · exact ⟨h.reset.1, h.reset.2, rfl⟩

/-- **What a run replies**: the result of every action, with its warnings. -/
def replies (s : Station α) (run : List (Int × Action α)) :
    List (Except (Error α) (Reply α) × List (Warning α)) :=
  (s.answers run).map fun answer => (answer.1, answer.2.1)

/-- **A run of twins**: the same actions, at any times. -/
theorem Twin.run {run run' : List (Int × Action α)} (h : Twin s s')
    (hactions : run'.map Prod.snd = run.map Prod.snd)
    (hrun : ∀ x ∈ run, x.2.isOperation = true ∨ x.2 = .reset) :
    Twin (s.after run) (s'.after run') ∧ s'.replies run' = s.replies run := by
  induction run generalizing s s' run' with
  | nil =>
    cases List.map_eq_nil_iff.mp hactions
    exact ⟨h, rfl⟩
  | cons x run ih =>
    obtain ⟨x', rest, rfl, hx, hrest⟩ := List.map_eq_cons_iff.mp hactions
    obtain ⟨stamp, a⟩ := x
    obtain ⟨stamp', a'⟩ := x'
    cases hx
    obtain ⟨hnext, hresult, hwarnings⟩ := h.perform stamp stamp' (hrun _ List.mem_cons_self)
    obtain ⟨hafter, hreplies⟩ := ih hnext hrest fun y hy => hrun y (List.mem_cons_of_mem _ hy)
    refine ⟨hafter, ?_⟩
    show (_, _) :: (s'.perform stamp' a).station.replies rest = (_, _) :: _
    rw [hreplies, hresult, hwarnings]
    rfl

end Twin

end Station

end CapacityControl.Control
