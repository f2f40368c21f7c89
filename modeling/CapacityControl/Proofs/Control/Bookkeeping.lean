/-
  CapacityControl.Proofs.Control.Bookkeeping
  ──────────────────────────────────────────
  THE BOOKS OF A RUN.  Every control is entered once: among those skipped, those failed or
  those applied.  As long as there are fewer than `2^64` controls the counters do not start
  over, so the books balance in every state of a run (`Counters.Counted.balanced`), whatever
  happens in it.  All the while the shares lie in `[0, 1]`, and a machine refuses no update
  but for its flag: what a control sends is always in range (`Station.run_kept`).
-/
import CapacityControl.Proofs.Control.Logging

namespace CapacityControl.Control

variable {α : Type} [Scalar α]

/-! ## §1. Counters. -/

/-- Under what a control is entered. -/
inductive Entry where
  | skipped
  | failed
  | applied
  deriving DecidableEq

/-- The entry of an outcome. -/
def Outcome.entry {β : Type} : Outcome β → Entry
  | .skipped _ => .skipped
  | .failed _ => .failed
  | .applied => .applied

namespace Counters

/-- How many controls were entered so. -/
def tally (c : Counters) : Entry → Nat
  | .skipped => c.skips.toNat
  | .failed => c.failures.toNat
  | .applied => c.applied.toNat

/-- Every control is entered once. -/
def Balanced (c : Counters) : Prop :=
  c.controls.toNat = c.tally .skipped + c.tally .failed + c.tally .applied

/-- One control more, entered so, and no other. -/
structure Counted (before after : Counters) (entry : Entry) : Prop where
  controls : after.controls.toNat = before.controls.toNat + 1
  tally : ∀ e, after.tally e = before.tally e + if e = entry then 1 else 0

theorem balanced_zero : zero.Balanced := rfl

theorem Counted.balanced {before after : Counters} {entry : Entry}
    (h : before.Counted after entry) (hbefore : before.Balanced) : after.Balanced := by
  have hcontrols := h.controls
  have hskipped := h.tally .skipped
  have hfailed := h.tally .failed
  have happlied := h.tally .applied
  unfold Balanced at hbefore ⊢
  cases entry <;> simp at hskipped hfailed happlied <;> omega

/-- Books that balance are consistent. -/
theorem Balanced.isConsistent {c : Counters} (h : c.Balanced) : c.isConsistent = true := by
  refine beq_iff_eq.mpr (UInt64.toNat_inj.mp ?_)
  have hbooks : c.controls.toNat = c.skips.toNat + c.failures.toNat + c.applied.toNat := h
  have hlt : c.controls.toNat < 2 ^ 64 := c.controls.toNat_lt
  rw [UInt64.toNat_add, UInt64.toNat_add]
  omega

/-- **One control is counted** once, as long as the counters do not start over. -/
theorem Balanced.record {c : Counters} (hc : c.Balanced) (hcount : c.controls.toNat + 1 < 2 ^ 64)
    {β : Type} (outcome : Outcome β) : c.Counted (c.record outcome) outcome.entry := by
  have hsucc : ∀ n : UInt64, n.toNat ≤ c.controls.toNat → (n + 1).toNat = n.toNat + 1 := by
    intro n hn
    rw [UInt64.toNat_add]
    exact Nat.mod_eq_of_lt (by show n.toNat + 1 < 2 ^ 64; omega)
  -- No entry is larger than the number of controls.
  have hbooks : c.controls.toNat = c.skips.toNat + c.failures.toNat + c.applied.toNat := hc
  cases outcome with
  | applied =>
    refine ⟨hsucc _ (Nat.le_refl _), fun e => ?_⟩
    cases e with
    | applied => exact hsucc _ (by omega)
    | _ => rfl
  | skipped reason =>
    refine ⟨hsucc _ (Nat.le_refl _), fun e => ?_⟩
    cases e with
    | skipped => exact hsucc _ (by omega)
    | _ => rfl
  | failed cause =>
    refine ⟨hsucc _ (Nat.le_refl _), fun e => ?_⟩
    cases e with
    | failed => exact hsucc _ (by omega)
    | _ => rfl

end Counters

/-! ## §2. Refusals. -/

/-- A machine among these refuses updates, and that is what the warning says. -/
def Warning.IsRefusal (machines : List (Machine α)) (w : Warning α) : Prop :=
  ∃ m ∈ machines, m.refuses = true ∧ ∃ r, w = .updateFailed m.id r (.driver (.updateRefused m.id))

/-- **Only the flag of a machine** refuses a share that is to be sent. -/
theorem Machine.setShare_nextShare [OrderedScalar α] {m : Machine α} {r : Resource}
    {old delta share : α} (h : nextShare old delta = some share) {e : Error α}
    (he : m.setShare r share = .error e) :
    m.refuses = true ∧ e = .driver (.updateRefused m.id) := by
  rw [setShare_eq, if_pos (inUnit_of_nextShare h)] at he
  by_cases hrefuses : m.refuses = true
  · rw [if_pos hrefuses] at he
    cases he
    exact ⟨hrefuses, rfl⟩
  · rw [if_neg hrefuses] at he
    cases he

namespace Controller

section Warnings

variable {w : Warning α}

/-- Sending a change leaves a machine what it is. -/
theorem actuateResource_frame (m : Machine α) (r : Resource) (delta : α) :
    (actuateResource m r delta).1.id = m.id
      ∧ (actuateResource m r delta).1.refuses = m.refuses := by
  unfold actuateResource
  cases nextShare (m.share r) delta with
  | none => exact ⟨rfl, rfl⟩
  | some share =>
    cases hset : m.setShare r share with
    | error e => simp [hset]
    | ok m' =>
      obtain ⟨_, rfl⟩ := Machine.setShare_ok hset
      simp [hset]

variable [OrderedScalar α]

theorem warning_actuateResource {m : Machine α} {r : Resource} {delta : α}
    (hw : w ∈ (actuateResource m r delta).2) : w.IsRefusal [m] := by
  unfold actuateResource at hw
  cases hnext : nextShare (m.share r) delta with
  | none => simp [hnext] at hw
  | some share =>
    cases hset : m.setShare r share with
    | ok m' => simp [hnext, hset] at hw
    | error e =>
      obtain ⟨hrefuses, rfl⟩ := Machine.setShare_nextShare hnext hset
      simp only [hnext, hset, List.mem_singleton] at hw
      exact ⟨m, List.mem_singleton_self m, hrefuses, r, hw⟩

theorem warning_actuateMachine {m : Machine α} {deltas : PerResource α}
    (hw : w ∈ (actuateMachine m deltas).2) : w.IsRefusal [m] := by
  change w ∈ (actuateResource m .cpu deltas.cpu).2
    ++ (actuateResource (actuateResource m .cpu deltas.cpu).1 .memory deltas.memory).2 at hw
  rcases List.mem_append.mp hw with hw | hw
  · exact warning_actuateResource hw
  · -- The memory is asked for at the machine as the processor's change has left it.
    obtain ⟨hid, hflag⟩ := actuateResource_frame m .cpu deltas.cpu
    obtain ⟨m', hm', hrefuses, r, rfl⟩ := warning_actuateResource hw
    cases List.mem_singleton.mp hm'
    rw [hid]
    exact ⟨m, List.mem_singleton_self m, hflag ▸ hrefuses, r, rfl⟩

theorem warning_actuate {ms : List (Machine α)} {ds : List (PerResource α)}
    (hw : w ∈ (actuate ms ds).2) : w.IsRefusal ms := by
  induction ms generalizing ds with
  | nil => cases hw
  | cons m ms ih =>
    cases ds with
    | nil => cases hw
    | cons d ds =>
      change w ∈ (actuateMachine m d).2 ++ (actuate ms ds).2 at hw
      rcases List.mem_append.mp hw with hw | hw
      · obtain ⟨m', hm', hrefusal⟩ := warning_actuateMachine hw
        cases List.mem_singleton.mp hm'
        exact ⟨m, List.mem_cons_self, hrefusal⟩
      · obtain ⟨m', hm', hrefusal⟩ := ih hw
        exact ⟨m', List.mem_cons_of_mem m hm', hrefusal⟩

theorem warning_decide {c : Controller α} {t : Testbed α} {readings : List (TargetReading α)}
    (hw : w ∈ (c.decide t readings).warnings) :
    w.IsRefusal t.machines ∨ ∃ e, w = .notApplied e := by
  rcases c.decide_cases t readings with ⟨_, _, h⟩ | ⟨_, _, ⟨e, _, h⟩ | ⟨deltas, _, h⟩⟩
  · rw [h] at hw
    cases hw
  · rw [h] at hw
    exact Or.inr ⟨e, List.mem_singleton.mp hw⟩
  · rw [h] at hw
    exact Or.inl (warning_actuate hw)

end Warnings

end Controller

/-- Writing a row warns of nothing but its loss. -/
theorem warning_writeRow {log : Option Log.DataLog} {storage : Storage}
    {row : List (Log.Cell α)} {w : Warning α} (hw : w ∈ (writeRow log storage row).warnings) :
    ∃ e, w = .rowLost e := by
  cases log with
  | none => cases hw
  | some log =>
    unfold writeRow at hw
    dsimp only at hw
    split at hw
    · cases hw
    · exact ⟨_, List.mem_singleton.mp hw⟩

/-- **What a control warns of** if it is the update of a share: a machine that refuses. -/
theorem Policy.refusal_of_updateFailed [OrderedScalar α] {p : Policy α} {core : Core α}
    {t : Testbed α} {storage : Storage} {stamp : Int} {id : String} {r : Resource} {e : Error α}
    (hw : .updateFailed id r e ∈ (p.control core t storage stamp).warnings) :
    (Warning.updateFailed id r e).IsRefusal t.machines := by
  have hrow : ∀ {log : Option Log.DataLog} {row : List (Log.Cell α)},
      .updateFailed id r e ∉ (writeRow log storage row).warnings := by
    intro log row hlost
    obtain ⟨_, hlost⟩ := warning_writeRow hlost
    cases hlost
  cases p with
  | fuzzy c =>
    rcases List.mem_append.mp hw with hw | hw
    · rcases Controller.warning_decide hw with hrefusal | ⟨_, h⟩
      · exact hrefusal
      · cases h
    · exact absurd hw hrow
  | monitor c => exact absurd hw hrow

/-! ## §3. What holds in a run. -/

namespace Policy

theorem counters_control (p : Policy α) (core : Core α) (t : Testbed α) (storage : Storage)
    (stamp : Int) :
    (p.control core t storage stamp).policy.counters
      = p.counters.record (p.control core t storage stamp).outcome := by
  cases p with
  | fuzzy c => rfl
  | monitor c => rfl

end Policy

namespace Station

/-- The counters of the manager. -/
def counters (s : Station α) : Counters := s.manager.policy.counters

/-- The books balance, as the manager can check, and the shares of every machine lie in
`[0, 1]`. -/
structure InOrder (s : Station α) : Prop where
  balanced : s.counters.Balanced
  consistent : s.counters.isConsistent = true
  shares : ∀ m ∈ s.testbed.machines, ∀ r, Scalar.inUnit (m.shares.get r) = true

/-- **A control in order**: it is counted once, by the outcome that it answers, and if it warns
that a share could not be updated then the machine refuses updates. -/
structure ControlInOrder (s : Station α) (stamp : Int) : Prop where
  before : s.InOrder
  after : (s.control stamp).station.InOrder
  counted : ∃ outcome, (s.control stamp).result = .ok (.controlled outcome)
    ∧ s.counters.Counted (s.control stamp).station.counters outcome.entry
  refusals : ∀ id r e, .updateFailed id r e ∈ (s.control stamp).warnings →
    e = .driver (.updateRefused id) ∧ ∃ m ∈ s.testbed.machines, m.id = id ∧ m.refuses = true

/-- What holds in a run, of the station and of the controls so far. -/
structure Kept (s : Station α) (past : List (Int × Station α)) : Prop where
  reachable : s.Reachable
  balanced : s.counters.Balanced
  count : s.counters.controls.toNat ≤ past.length
  controls : ∀ x ∈ past, x.2.ControlInOrder x.1

/-- A reset that succeeds starts the books anew. -/
theorem counters_reset_ok {s : Station α} (h : s.reset.result = .ok .done) :
    s.reset.station.counters = .zero := by
  obtain ⟨_, hstation⟩ := reset_ok h
  rw [hstation]
  exact Policy.counters_begun _ _ _ _

/-- A reset, whether it succeeds or not, starts the books anew or leaves them alone. -/
theorem counters_reset (s : Station α) :
    s.reset.station.counters = .zero ∨ s.reset.station.counters = s.counters := by
  rcases s.reset_cases with ⟨hstation, _⟩ | ⟨fault, _, hstation, _⟩ | ⟨_, _, hstation, _⟩
  · rw [hstation]
    exact Or.inr rfl
  · rw [hstation]
    exact Or.inr (Policy.sameLog_haltedAt _ _ _).counters
  · rw [hstation]
    exact Or.inl (Policy.counters_begun _ _ _ _)

/-- Quiet actions change no counter. -/
theorem counters_quiet (s : Station α) (stamp : Int) {a : Action α} (ha : a.isQuiet = true) :
    (s.perform stamp a).station.counters = s.counters :=
  (s.sameLog_quiet stamp ha).policy.counters

section Kept

variable [OrderedScalar α] {s s' : Station α} {past : List (Int × Station α)}

theorem Reachable.inOrder (hs : s.Reachable) (hbalanced : s.counters.Balanced) : s.InOrder :=
  ⟨hbalanced, hbalanced.isConsistent, fun m hm => (hs.sound.machines m hm).inUnit⟩

theorem Reachable.controlInOrder (hs : s.Reachable) (hbalanced : s.counters.Balanced)
    (hcount : s.counters.controls.toNat + 1 < 2 ^ 64) (stamp : Int) : s.ControlInOrder stamp := by
  have hcounted := hbalanced.record hcount
    (s.manager.policy.control s.manager.core s.testbed s.storage stamp).outcome
  have hafter : (s.control stamp).station.counters = s.counters.record
      (s.manager.policy.control s.manager.core s.testbed s.storage stamp).outcome :=
    Policy.counters_control _ _ _ _ _
  rw [← hafter] at hcounted
  refine ⟨hs.inOrder hbalanced, ?_, ⟨_, rfl, hcounted⟩, fun id r e hw => ?_⟩
  · exact (hs.perform stamp .control).inOrder (hcounted.balanced hbalanced)
  · obtain ⟨m, hm, hrefuses, _, hwarning⟩ := Policy.refusal_of_updateFailed hw
    cases hwarning
    exact ⟨rfl, m, hm, rfl, hrefuses⟩

omit [OrderedScalar α] in
theorem Kept.of_counters (h : s.Kept past) (hs' : s'.Reachable)
    (hcounters : s'.counters = s.counters) : s'.Kept past :=
  ⟨hs', hcounters ▸ h.balanced, hcounters ▸ h.count, h.controls⟩

omit [OrderedScalar α] in
theorem Kept.reset (h : s.Kept past) : s.reset.station.Kept past := by
  have hreachable : s.reset.station.Reachable := h.reachable.perform 0 .reset
  rcases s.counters_reset with hzero | hsame
  · refine ⟨hreachable, ?_, ?_, h.controls⟩
    · rw [hzero]
      exact Counters.balanced_zero
    · rw [hzero]
      exact Nat.zero_le _
  · exact h.of_counters hreachable hsame

/-- **One control more** is one more in order, unless the counters start over. -/
theorem Kept.control (h : s.Kept past) (hlt : past.length + 1 < 2 ^ 64) (stamp : Int) :
    (s.control stamp).station.Kept (past ++ [(stamp, s)]) := by
  have hcount := h.count
  have hcontrol := h.reachable.controlInOrder h.balanced (by omega) stamp
  obtain ⟨_, _, hcounted⟩ := hcontrol.counted
  refine ⟨h.reachable.perform stamp .control, hcontrol.after.balanced, ?_, fun x hx => ?_⟩
  · rw [hcounted.controls, List.length_append]
    exact Nat.succ_le_succ hcount
  · rcases List.mem_append.mp hx with hx | hx
    · exact h.controls x hx
    · cases List.mem_singleton.mp hx
      exact hcontrol

/-- **A run keeps its books**, as long as it makes fewer than `2^64` controls. -/
theorem Kept.run (h : s.Kept []) {run : List (Int × Action α)}
    (hcount : (s.controls run).length < 2 ^ 64) : (s.after run).Kept (s.controls run) := by
  have hstart : ([] : List (Int × Station α)).length < 2 ^ 64 → s.Kept [] := fun _ => h
  refine run_induction (P := fun s past => past.length < 2 ^ 64 → s.Kept past) ?_ ?_ ?_ hstart
    (fun _ _ _ s past hs hlt => (hs hlt).reset) hcount
  · intro s past pacer hs hlt
    exact (hs hlt).of_counters ((hs hlt).reachable.paced pacer) rfl
  · intro s past stamp a ha hs hlt
    exact (hs hlt).of_counters ((hs hlt).reachable.perform stamp a) (s.counters_quiet stamp ha)
  · intro s past stamp hs hlt
    rw [List.length_append, List.length_singleton] at hlt
    exact (hs (by omega)).control hlt stamp

end Kept

/-- **The books of a run.**  Take a new manager over machines that keep their shares, and let
anything happen in any order, with fewer than `2^64` controls.  Then the books balance, and all
shares lie in `[0, 1]`.  Every control of the run was counted once, by the outcome that it
answered, and no machine refused an update of it but for its flag.  Anywhere, an action that is
neither a reset nor makes controls changes no counter, and a reset that succeeds clears them. -/
theorem run_inOrder [OrderedScalar α] {p : Policy α} (hp : p.IsNew) {t : Testbed α}
    (ht : ∀ m ∈ t.machines, m.KeepsShares) (storage : Storage) {run : List (Int × Action α)}
    (hcount : (controls { new p t with storage := storage } run).length < 2 ^ 64) :
    let start : Station α := { new p t with storage := storage }
    (start.after run).InOrder
      ∧ (∀ x ∈ start.controls run, x.2.ControlInOrder x.1)
      ∧ (∀ (s : Station α) (stamp : Int) (a : Action α), a.isQuiet = true →
        (s.perform stamp a).station.counters = s.counters)
      ∧ ∀ (s : Station α) (stamp : Int), (s.perform stamp .reset).result = .ok .done →
        (s.perform stamp .reset).station.counters = .zero := by
  intro start
  have hnew : start.counters = .zero := by
    show p.counters = .zero
    cases hp with
    | fuzzy h =>
      obtain ⟨_, _, rfl⟩ := map_eq_ok_iff.mp h
      rfl
    | monitor => rfl
  have hstart : start.Kept [] := by
    refine ⟨.start hp ht storage, ?_, ?_, fun x hx => absurd hx List.not_mem_nil⟩
    · rw [hnew]
      exact Counters.balanced_zero
    · rw [hnew]
      exact Nat.le_refl _
  have hkept := hstart.run hcount
  exact ⟨hkept.reachable.inOrder hkept.balanced, hkept.controls,
    fun s stamp a ha => s.counters_quiet stamp ha, fun _ _ hreset => counters_reset_ok hreset⟩

/-- A run in which the machine refuses, and nothing is read between two controls. -/
def refusedRun : List (Int × Action Extended) :=
  [(0, .bind), (0, .setTarget .responseTime 1.0), (0, .reset)] ++ trialRun 0.5
    ++ [(0, .refuse 0 true), (0, .control), (1, .control)]

/-- One control is applied, though both updates are refused, and one is skipped. -/
theorem run_inOrder_trial :
    let start : Station Extended := new untried (.new [.new "vm" 1.0])
    (start.controls refusedRun).length = 2
      ∧ (start.after refusedRun).InOrder
      ∧ (start.after refusedRun).counters = ⟨2, 1, 0, 1⟩
      ∧ (∀ x ∈ start.controls refusedRun, x.2.ControlInOrder x.1)
      ∧ (start.controls refusedRun).map (fun x => (x.2.control x.1).warnings.length) = [2, 0] := by
  intro start
  have hlength : (start.controls refusedRun).length = 2 := by decide +kernel
  have hcount : (start.controls refusedRun).length < 2 ^ 64 := by
    rw [hlength]
    decide
  have hkeeps : ∀ m ∈ [Machine.new "vm" (1.0 : Extended)], m.KeepsShares :=
    List.forall_mem_singleton.mpr (Machine.keepsShares_new "vm" 1.0)
  obtain ⟨hinOrder, hcontrols, _⟩ := run_inOrder isNew_untried hkeeps .fresh hcount
  exact ⟨hlength, hinOrder, by decide +kernel, hcontrols, by decide +kernel⟩

end Station

end CapacityControl.Control
