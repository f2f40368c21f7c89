/-
  CapacityControl.Proofs.Control.Units
  ────────────────────────────────────
  STATIONS IN OTHER UNITS.  A station is in other units than another if what it knows of the
  application is rescaled and the rest is the same (`Station.InUnits`); the log holds other
  numbers, but as many and at the same places, so that it can be written and reopened as long
  as the other can.  Every step of the manager, and every other action, keeps stations in their
  units and is answered alike (`Station.InUnits.sample`, `Station.InUnits.control`,
  `Station.InUnits.reset`, `Station.InUnits.perform_quiet`).
-/
import CapacityControl.Proofs.Control.Configuring
import CapacityControl.Proofs.Control.Rescaling

namespace CapacityControl.Control

open Stats Log

variable {α : Type} [Scalar α]

/-! ## §1. Logs with other numbers. -/

section Files

variable {log log' : Option DataLog} {storage storage' : Storage}
  (hlog : Option.Rel DataLog.SameForm log log') (hstorage : storage.SameLayout storage')

include hlog hstorage

/-- **Rows with as many fields** are written with the same warnings. -/
theorem writeRow_sameForm {row row' : List (Cell α)} (hrow : row'.length = row.length) :
    Option.Rel DataLog.SameForm (writeRow log storage row).log (writeRow log' storage' row').log
      ∧ (writeRow log storage row).storage.SameLayout (writeRow log' storage' row').storage
      ∧ (writeRow log' storage' row').warnings = (writeRow log storage row).warnings := by
  cases hlog with
  | none => exact ⟨.none, hstorage, rfl⟩
  | @some log log' hform =>
    have htexts : (row'.map Cell.text).length = (row.map Cell.text).length := by
      rw [List.length_map, List.length_map, hrow]
    obtain ⟨hnext, hlayout, hfault⟩ := hform.writeRow hstorage htexts
    unfold Control.writeRow
    dsimp only
    generalize log.writeRow storage (row.map Cell.text) = written at hnext hlayout hfault ⊢
    generalize log'.writeRow storage' (row'.map Cell.text) = written' at hnext hlayout hfault ⊢
    obtain ⟨next, left, fault⟩ := written
    obtain ⟨next', left', fault'⟩ := written'
    cases hfault
    cases fault with
    | none => exact ⟨.some hnext, hlayout, rfl⟩
    | some fault =>
      exact ⟨.some hnext, hlayout,
        congrArg (fun path => [Warning.rowLost (.dataLog path (.width fault))]) hnext.path⟩

omit [Scalar α] in
/-- **Logs of one form** can both be reopened, or neither. -/
theorem reopen_sameForm (path : Option String) (columns : List String) :
    let opened : Reopened α := reopen log storage path columns
    let opened' : Reopened α := reopen log' storage' path columns
    Option.Rel DataLog.SameForm opened.log opened'.log
      ∧ opened.storage.SameLayout opened'.storage ∧ opened'.result = opened.result := by
  have hclosed : (log.elim storage (·.close storage)).SameLayout
      (log'.elim storage' (·.close storage')) := by
    cases hlog with
    | none => exact hstorage
    | some hform => exact hform.close hstorage
  cases path with
  | none =>
    cases hlog with
    | none => exact ⟨.none, hstorage, rfl⟩
    | some hform => exact ⟨.none, hform.close hstorage, rfl⟩
  | some path =>
    rw [reopen_some, reopen_some]
    unfold DataLog.create
    rw [hclosed.locate]
    cases (log.elim storage (·.close storage)).locate path with
    | error fault => exact ⟨.none, hclosed, rfl⟩
    | ok place => exact ⟨.some (.refl _), hclosed.put _ _ _, rfl⟩

end Files

variable (u : Units α)

/-! ## §2. Policies with other logs. -/

namespace Policy

section Alike

variable {p p' : Policy α} (hpolicy : p'.unlogged = p.unlogged) (core : Core α) (t : Testbed α)

include hpolicy

/-- **Policies that differ in their logs** sample alike in other units. -/
theorem sample_inUnits :
    (p'.sample (core.rescaled u) (t.rescaled u)).policy.unlogged
        = (p.sample core t).policy.unlogged
      ∧ (p'.sample (core.rescaled u) (t.rescaled u)).core = (p.sample core t).core.rescaled u
      ∧ (p'.sample (core.rescaled u) (t.rescaled u)).testbed
        = (p.sample core t).testbed.rescaled u
      ∧ (p'.sample (core.rescaled u) (t.rescaled u)).warnings = (p.sample core t).warnings := by
  have hquiet := p'.sample_unlogged (core.rescaled u) (t.rescaled u)
  rw [hpolicy, sample_rescaled, sample_unlogged] at hquiet
  exact ⟨(congrArg Sampled.policy hquiet).symm, (congrArg Sampled.core hquiet).symm,
    (congrArg Sampled.testbed hquiet).symm, (congrArg Sampled.warnings hquiet).symm⟩

/-- They control alike, and write rows with as many fields. -/
theorem control_inUnits (stamp : Int) {storage storage' : Storage}
    (hlog : Option.Rel DataLog.SameForm p.log? p'.log?) (hstorage : storage.SameLayout storage') :
    let controlled := p.control core t storage stamp
    let controlled' := p'.control (core.rescaled u) (t.rescaled u) storage' stamp
    controlled'.policy.unlogged = controlled.policy.unlogged
      ∧ controlled'.core = controlled.core.rescaled u
      ∧ controlled'.testbed = controlled.testbed.rescaled u
      ∧ Option.Rel DataLog.SameForm controlled.policy.log? controlled'.policy.log?
      ∧ controlled.storage.SameLayout controlled'.storage
      ∧ controlled'.outcome = controlled.outcome ∧ controlled'.warnings = controlled.warnings := by
  intro controlled controlled'
  have hrow : (p'.row (core.rescaled u) (t.rescaled u) stamp).length
      = (p.row core t stamp).length := by
    rw [← row_unlogged, hpolicy, row_unlogged, length_row_rescaled]
  obtain ⟨hnext, hlayout, hwarnings⟩ := writeRow_sameForm hlog hstorage hrow
  obtain ⟨hlogged, hstored, _⟩ := p.control_logged core t storage stamp
  obtain ⟨hlogged', hstored', _⟩ :=
    p'.control_logged (core.rescaled u) (t.rescaled u) storage' stamp
  rw [← hlogged, ← hlogged'] at hnext
  rw [← hstored, ← hstored'] at hlayout
  -- Without their logs both come to the same.
  have hquiet := p.control_unlogged core t storage stamp
  have hquiet' := p'.control_unlogged (core.rescaled u) (t.rescaled u) storage' stamp
  rw [hpolicy, control_rescaled] at hquiet'
  refine ⟨?_, ?_, ?_, hnext, hlayout, ?_, ?_⟩
  · rw [congrArg Controlled.policy hquiet, congrArg Controlled.policy hquiet']
    dsimp only
    rw [unlogged_withLog, unlogged_withLog]
  · rw [congrArg Controlled.core hquiet, congrArg Controlled.core hquiet']
  · rw [congrArg Controlled.testbed hquiet, congrArg Controlled.testbed hquiet']
  · rw [congrArg Controlled.outcome hquiet, congrArg Controlled.outcome hquiet']
  · rw [congrArg Controlled.warnings hquiet, congrArg Controlled.warnings hquiet']
    dsimp only
    rw [hwarnings]

end Alike

end Policy

/-! ## §3. Stations in other units. -/

namespace Station

/-- **The station in other units.**  Its log stays as it is: numbers that were written are not
read again. -/
def rescaled (s : Station α) : Station α :=
  { s with
    manager := { s.manager with core := s.manager.core.rescaled u }
    testbed := s.testbed.rescaled u }

/-- **A station in other units**, but for what the numbers in its log look like. -/
structure InUnits (s s' : Station α) : Prop where
  core : s'.manager.core = s.manager.core.rescaled u
  policy : s'.manager.policy.unlogged = s.manager.policy.unlogged
  observers : s'.manager.observers = s.manager.observers
  testbed : s'.testbed = s.testbed.rescaled u
  pacer : s'.pacer = s.pacer
  log : Option.Rel DataLog.SameForm s.manager.policy.log? s'.manager.policy.log?
  storage : s.storage.SameLayout s'.storage

theorem inUnits_rescaled (s : Station α) : InUnits u s (s.rescaled u) := by
  refine ⟨rfl, rfl, rfl, rfl, rfl, ?_, .refl _⟩
  show Option.Rel _ s.manager.policy.log? s.manager.policy.log?
  cases s.manager.policy.log? with
  | none => exact .none
  | some log => exact .some (.refl log)

/-- **The same came of an action** in other units. -/
structure SameAnswer (p p' : Performed α) : Prop where
  station : InUnits u p.station p'.station
  result : p'.result = p.result
  warnings : p'.warnings = p.warnings
  notices : p'.notices = p.notices

variable {u} {s s' : Station α}

section Steps

variable (h : InUnits u s s')

include h

theorem InUnits.changed : SameAnswer u s.changed s'.changed := ⟨h, rfl, rfl, rfl⟩

/-- The same change of the settings. -/
theorem InUnits.withCore {core core' : Core α} (hcore : core' = core.rescaled u) :
    InUnits u (s.withCore core) (s'.withCore core') :=
  { h with core := hcore }

/-- The same change of the testbed. -/
theorem InUnits.withTestbed {t t' : Testbed α} (ht : t' = t.rescaled u) :
    InUnits u { s with testbed := t } { s' with testbed := t' } :=
  { h with testbed := ht }

/-- A change that is refused in both units, or made in both. -/
theorem InUnits.attempt {β γ : Type} {r : Except (Error α) β} {r' : Except (Error α) γ}
    {f : β → Station α} {f' : γ → Station α} (herror : ∀ e, r = .error e → r' = .error e)
    (hok : ∀ v, r = .ok v → ∃ v', r' = .ok v' ∧ InUnits u (f v) (f' v')) :
    SameAnswer u (s.attempt r f) (s'.attempt r' f') := by
  cases r with
  | error e =>
    rw [herror e rfl]
    exact ⟨h, rfl, rfl, rfl⟩
  | ok v =>
    obtain ⟨v', hv', hnext⟩ := hok v rfl
    rw [hv']
    exact hnext.changed

/-- A step that leaves the logs as they are, and the rest alike. -/
theorem InUnits.sameLog {r r' : Station α} (hs : s.SameLog r) (hs' : s'.SameLog r')
    (hcore : r'.manager.core = r.manager.core.rescaled u)
    (hpolicy : r'.manager.policy.unlogged = r.manager.policy.unlogged)
    (hobservers : r'.manager.observers = r.manager.observers)
    (htestbed : r'.testbed = r.testbed.rescaled u) (hpacer : r'.pacer = r.pacer) :
    InUnits u r r' where
  core := hcore
  policy := hpolicy
  observers := hobservers
  testbed := htestbed
  pacer := hpacer
  log := by
    rw [hs.policy.log, hs'.policy.log]
    exact h.log
  storage := by
    rw [hs.storage, hs'.storage]
    exact h.storage

/-- Observers see the same. -/
theorem InUnits.notices (e : Event) : s'.manager.notices e = s.manager.notices e := by
  unfold Manager.notices
  rw [h.observers, ← Policy.counters_unlogged, h.policy, Policy.counters_unlogged]

/-- **A sample** in other units. -/
theorem InUnits.sample : SameAnswer u s.sample s'.sample := by
  obtain ⟨hpolicy, hcore, htestbed, hwarnings⟩ :=
    Policy.sample_inUnits u h.policy s.manager.core s.testbed
  rw [← h.core, ← h.testbed] at hpolicy hcore htestbed hwarnings
  have hnext : InUnits u s.sample.station s'.sample.station :=
    h.sameLog (s.sameLog_quiet 0 (a := .sample) rfl) (s'.sameLog_quiet 0 (a := .sample) rfl) hcore
      hpolicy h.observers htestbed h.pacer
  exact ⟨hnext, rfl, hwarnings, hnext.notices .sample⟩

/-- **A control** in other units. -/
theorem InUnits.control (stamp : Int) : SameAnswer u (s.control stamp) (s'.control stamp) := by
  obtain ⟨hpolicy, hcore, htestbed, hlog, hstorage, houtcome, hwarnings⟩ :=
    Policy.control_inUnits u h.policy s.manager.core s.testbed stamp h.log h.storage
  rw [← h.core, ← h.testbed] at hpolicy hcore htestbed hlog hstorage houtcome hwarnings
  have hnext : InUnits u (s.control stamp).station (s'.control stamp).station :=
    ⟨hcore, hpolicy, h.observers, htestbed, h.pacer, hlog, hstorage⟩
  exact ⟨hnext, congrArg (fun outcome => Except.ok (Reply.controlled outcome)) houtcome,
    hwarnings, hnext.notices .control⟩

theorem InUnits.resetStatistics :
    s'.manager.core.resetStatistics = s.manager.core.resetStatistics.rescaled u := by
  rw [h.core, Core.resetStatistics_rescaled]

/-- Both stop at an obstacle, and their logs stay open. -/
theorem InUnits.halted (fault : WiringFault) :
    InUnits u
      { s with manager := { s.manager with
        core := s.manager.core.resetStatistics
        policy := s.manager.policy.haltedAt s.manager.core.resetStatistics fault } }
      { s' with manager := { s'.manager with
        core := s'.manager.core.resetStatistics
        policy := s'.manager.policy.haltedAt s'.manager.core.resetStatistics fault } } := by
  refine h.sameLog ⟨Policy.sameLog_haltedAt _ _ _, rfl, rfl⟩
    ⟨Policy.sameLog_haltedAt _ _ _, rfl, rfl⟩ h.resetStatistics ?_ h.observers h.testbed h.pacer
  show (s'.manager.policy.haltedAt _ _).unlogged = (s.manager.policy.haltedAt _ _).unlogged
  rw [Policy.unlogged_haltedAt, Policy.unlogged_haltedAt, h.policy, h.resetStatistics,
    Policy.haltedAt_rescaled]

/-- Logs are reopened at the same places, with the same columns. -/
theorem InUnits.reopened :
    Option.Rel DataLog.SameForm s.reopened.log s'.reopened.log
      ∧ s.reopened.storage.SameLayout s'.reopened.storage
      ∧ s'.reopened.result = s.reopened.result := by
  have hcolumns : s'.manager.policy.columns s'.manager.core.resetStatistics s'.testbed.machines
      = s.manager.policy.columns s.manager.core.resetStatistics s.testbed.machines := by
    rw [h.resetStatistics, h.testbed, ← Policy.columns_unlogged, h.policy,
      Policy.columns_unlogged, Policy.columns_rescaled]
    rfl
  have hpath : s'.manager.core.dataLog = s.manager.core.dataLog := by
    rw [h.core]
    rfl
  unfold Station.reopened
  rw [hcolumns, hpath]
  exact reopen_sameForm h.log h.storage _ _

/-- Both begin a run. -/
theorem InUnits.beginning :
    InUnits u (s.beginning s.reopened.log s.reopened.storage)
      (s'.beginning s'.reopened.log s'.reopened.storage) := by
  obtain ⟨hlog, hstorage, _⟩ := h.reopened
  refine ⟨h.resetStatistics, ?_, h.observers, h.testbed, h.pacer, ?_, hstorage⟩
  · show (s'.manager.policy.begun _ _ _).unlogged = (s.manager.policy.begun _ _ _).unlogged
    rw [Policy.unlogged_begun, Policy.unlogged_begun, h.resetStatistics, h.testbed,
      Policy.begun_rescaled, ← Policy.begun_unlogged, h.policy, Policy.begun_unlogged]
  · show Option.Rel _ (s.manager.policy.begun _ _ _).log? (s'.manager.policy.begun _ _ _).log?
    rw [Policy.log?_begun, Policy.log?_begun]
    exact hlog

/-- **A reset** in other units. -/
theorem InUnits.reset : SameAnswer u s.reset s'.reset := by
  have hbound : s'.manager.core.bound = s.manager.core.bound := by
    rw [h.core]
    rfl
  have hobstacle : s'.obstacle? = s.obstacle? := by
    unfold Station.obstacle?
    rw [h.resetStatistics, h.testbed, Policy.obstacle?_rescaled, ← Policy.obstacle?_unlogged,
      h.policy, Policy.obstacle?_unlogged]
  have hreset : InUnits u s.reset.station s'.reset.station
      ∧ s'.reset.result = s.reset.result := by
    cases hknown : s.manager.core.bound with
    | false =>
      unfold Station.reset Manager.reset
      rw [hbound, hknown]
      exact ⟨h, rfl⟩
    | true =>
      cases hfault : s.obstacle? with
      | some fault =>
        obtain ⟨hstation, hresult⟩ := reset_halts hknown hfault
        obtain ⟨hstation', hresult'⟩ :=
          reset_halts (hbound.trans hknown) (hobstacle.trans hfault)
        rw [hstation, hstation', hresult, hresult']
        exact ⟨h.halted fault, rfl⟩
      | none =>
        obtain ⟨hstation, hresult⟩ := reset_begins hknown hfault
        obtain ⟨hstation', hresult'⟩ :=
          reset_begins (hbound.trans hknown) (hobstacle.trans hfault)
        rw [hstation, hstation', hresult, hresult', h.reopened.2.2]
        exact ⟨h.beginning, rfl⟩
  obtain ⟨hstation, hresult⟩ := hreset
  refine ⟨hstation, hresult, rfl, ?_⟩
  rw [notices_reset_eq, notices_reset_eq, hresult, hstation.notices]

/-! ## §4. Actions of both. -/

/-- **Readings** are pushed in the unit of their metric. -/
theorem InUnits.feed (items : List (Item α)) :
    InUnits u (s.feed items) (s'.feed (items.map (Item.rescaled u))) := by
  have hpush : ∀ (t : Testbed α) (item : Item α),
      push (t.rescaled u) (item.rescaled u) = (push t item).rescaled u := by
    intro t item
    cases item with
    | machine index r value => rfl
    | output m value =>
      refine t.withOutput_rescaled u m ?_
      simp [Sensor.push, Sensor.rescaled, Reading.rescaled]
  refine h.withTestbed ?_
  rw [h.testbed]
  generalize s.testbed = t
  induction items generalizing t with
  | nil => rfl
  | cons item items ih =>
    rw [List.map_cons, List.foldl_cons, List.foldl_cons, hpush]
    exact ih _

/-- **A target** is refused in both units, or set in both. -/
theorem InUnits.setTarget (stamp : Int) (m : Metric) (value : α) :
    SameAnswer u (s.perform stamp (.setTarget m value))
      (s'.perform stamp (.setTarget m ((u m).value value))) := by
  have htarget := s.manager.core.withTarget_rescaled u m value
  rw [← h.core] at htarget
  refine h.attempt (fun e he => ?_) fun core hcore => ⟨core.rescaled u, ?_, h.withCore rfl⟩
  · rw [htarget, he]
    rfl
  · rw [htarget, hcore]
    rfl

/-- **A configuration** is refused in both units, or taken over in both. -/
theorem InUnits.apply (stamp : Int) (config : Config α) :
    SameAnswer u (s.perform stamp (.apply config))
      (s'.perform stamp (.apply (config.rescaled u))) := by
  have hs := s.sameLog_quiet stamp (a := .apply config) rfl
  have hs' := s'.sameLog_quiet stamp (a := .apply (config.rescaled u)) rfl
  cases hcheck : config.check with
  | error e =>
    have hcheck' : (config.rescaled u).check = .error e := (config.check_rescaled u).trans hcheck
    show SameAnswer u (s.apply config) (s'.apply (config.rescaled u))
    unfold Station.apply
    rw [Manager.apply_refused hcheck, Manager.apply_refused hcheck']
    exact ⟨h, rfl, rfl, rfl⟩
  | ok =>
    have hcheck' : (config.rescaled u).check = .ok () := (config.check_rescaled u).trans hcheck
    rw [apply_eq hcheck] at hs ⊢
    rw [apply_eq hcheck'] at hs' ⊢
    have hnext : InUnits u ((s.withCore (s.manager.core.steered config)).deferring config.deferred)
        ((s'.withCore (s'.manager.core.steered (config.rescaled u))).deferring
          (config.rescaled u).deferred) := by
      refine h.sameLog hs hs' ?_ ?_ h.observers h.testbed h.pacer
      · rw [h.core, Core.steered_rescaled]
        rfl
      · show (s'.manager.policy.deferring _).unlogged = (s.manager.policy.deferring _).unlogged
        rw [Policy.unlogged_deferring, Policy.unlogged_deferring, h.policy]
        rfl
    exact hnext.changed

/-- **A smoothing factor** is refused in both units, or set in both. -/
theorem InUnits.setFactor (stamp : Int) (factor : α) :
    SameAnswer u (s.perform stamp (.setFactor factor)) (s'.perform stamp (.setFactor factor)) := by
  -- Whether it is refused, and what becomes of the rest of a policy, does not depend on the log.
  have hfactor : ∀ p : Policy α, (required (p.withFactor factor) : Except (Error α) _).map
      Policy.unlogged = required (p.unlogged.withFactor factor) := by
    intro p
    rw [Policy.withFactor_unlogged]
    cases p.withFactor factor with
    | error r => rfl
    | ok q => rfl
  have hsame : (required (s'.manager.policy.withFactor factor) : Except (Error α) _).map
        Policy.unlogged
      = (required (s.manager.policy.withFactor factor)).map Policy.unlogged := by
    rw [hfactor, hfactor, h.policy]
  refine h.attempt (fun e he => ?_) fun policy hpolicy => ?_
  · exact map_eq_error_iff.mp (hsame.trans (map_eq_error_iff.mpr he))
  · obtain ⟨policy', hpolicy', hunlogged⟩ :=
      map_eq_ok_iff.mp (hsame.trans (map_eq_ok_iff.mpr ⟨policy, hpolicy, rfl⟩))
    refine ⟨policy', hpolicy', ?_⟩
    exact h.sameLog ⟨Policy.sameLog_withFactor (mapError_eq_ok_iff.mp hpolicy), rfl, rfl⟩
      ⟨Policy.sameLog_withFactor (mapError_eq_ok_iff.mp hpolicy'), rfl, rfl⟩ h.core hunlogged
      h.observers h.testbed h.pacer

/-- **An action that is no step of the manager** in other units. -/
theorem InUnits.perform_quiet (stamp : Int) {a : Action α} (ha : a.isQuiet = true) :
    SameAnswer u (s.perform stamp a) (s'.perform stamp (a.rescaled u)) := by
  have hintervals : s'.manager.core.intervals = s.manager.core.intervals := by
    rw [h.core]
    rfl
  have hmachines : s'.testbed.machines = s.testbed.machines := by
    rw [h.testbed]
    rfl
  cases a with
  | bind => exact (h.withCore (by rw [h.core]; rfl)).changed
  | setTarget m value => exact h.setTarget stamp m value
  | clearTargets => exact (h.withCore (by rw [h.core]; rfl)).changed
  | setEstimator m kind =>
    refine h.attempt (fun e he => he) fun e he => ⟨e, he, h.withCore ?_⟩
    -- A new estimator has no unit yet.
    rw [h.core, ← Core.withEstimator_rescaled,
      Estimator.rescaled_build (u m) (mapError_eq_ok_iff.mp he)]
  | setSmoother m smoother =>
    exact (h.withCore (by rw [h.core, Core.withSmoother_rescaled])).changed
  | setSampling ms =>
    refine h.attempt (fun e he => ?_) fun i hi => ⟨i, ?_, h.withCore ?_⟩
    · rw [hintervals, he]
    · rw [hintervals, hi]
    · rw [h.core]
      rfl
  | setControl ms =>
    refine h.attempt (fun e he => ?_) fun i hi => ⟨i, ?_, h.withCore ?_⟩
    · rw [hintervals, he]
    · rw [hintervals, hi]
    · rw [h.core]
      rfl
  | setDataLog path => exact (h.withCore (by rw [h.core]; rfl)).changed
  | setResetsEachInterval on => exact (h.withCore (by rw [h.core]; rfl)).changed
  | setFactor factor => exact h.setFactor stamp factor
  | apply config => exact h.apply stamp config
  | observe o =>
    have hnext : InUnits u { s with manager := s.manager.observe o }
        { s' with manager := s'.manager.observe o } :=
      { h with observers := congrArg (· ++ [o]) h.observers }
    exact hnext.changed
  | feed items => exact (h.feed items).changed
  | failMachine index r => exact (h.withTestbed (by rw [h.testbed]; rfl)).changed
  | failOutput m =>
    refine (h.withTestbed ?_).changed
    rw [h.testbed]
    exact s.testbed.withOutput_rescaled u m rfl
  | refuse index on => exact (h.withTestbed (by rw [h.testbed]; rfl)).changed
  | setShare index r share =>
    show SameAnswer u (s.setShare index r share) (s'.setShare index r share)
    unfold Station.setShare
    rw [hmachines]
    cases s.testbed.machines[index]? with
    | none => exact h.changed
    | some m =>
      exact h.attempt (fun e he => he) fun m hm =>
        ⟨m, hm, h.withTestbed (by rw [h.testbed]; rfl)⟩
  | sample => exact h.sample
  | pace =>
    have hnext : InUnits u { s with pacer := some (.new s.manager.core.intervals) }
        { s' with pacer := some (.new s'.manager.core.intervals) } :=
      { h with pacer := by rw [hintervals] }
    exact hnext.changed
  | reset | control | runUntil _ _ => cases ha

end Steps

end Station

end CapacityControl.Control
