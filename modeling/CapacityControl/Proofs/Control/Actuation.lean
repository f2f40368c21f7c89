/-
  CapacityControl.Proofs.Control.Actuation
  ────────────────────────────────────────
  SENDING CHANGES to machines that keep their shares themselves.  Such a machine takes
  every share that is sent unless it refuses updates, so after a change each share is
  what `Machine.shareAfter` says, whatever became of the other one and of the other
  machines (`actuateMachine_fst`, `getElem?_actuate`).
-/
import CapacityControl.Control.Controller
import CapacityControl.Proofs.Control.Share
import CapacityControl.Proofs.Result

namespace CapacityControl.Control

variable {α : Type} [Scalar α]

/-! ## §1. Machines that keep their shares. -/

/-- A machine that reports the shares it keeps, which lie in `[0, 1]`. -/
structure Machine.KeepsShares (m : Machine α) : Prop where
  reported : m.reportedCpu = none
  inUnit : ∀ r, Scalar.inUnit (m.shares.get r) = true

namespace Machine

/-- The share of a resource after a change of it was sent. -/
def shareAfter (m : Machine α) (r : Resource) (delta : α) : α :=
  if m.refuses then m.shares.get r else (nextShare (m.shares.get r) delta).getD (m.shares.get r)

/-- The machine after changes of both shares were sent. -/
def moved (m : Machine α) (deltas : PerResource α) : Machine α :=
  { m with shares := ⟨m.shareAfter .cpu deltas.cpu, m.shareAfter .memory deltas.memory⟩ }

theorem get_shares_moved (m : Machine α) (deltas : PerResource α) (r : Resource) :
    (m.moved deltas).shares.get r = m.shareAfter r (deltas.get r) := by
  cases r <;> rfl

theorem share_eq {m : Machine α} (hm : m.KeepsShares) (r : Resource) :
    m.share r = m.shares.get r := by
  cases r with
  | cpu =>
    unfold share
    rw [hm.reported]
    rfl
  | memory => rfl

/-- **Setting a share**: out of range it is invalid, in range the machine is asked. -/
theorem setShare_eq (m : Machine α) (r : Resource) (share : α) :
    m.setShare r share
      = if Scalar.inUnit share then
          if m.refuses then .error (.driver (.updateRefused m.id))
          else .ok { m with shares := m.shares.set r share }
        else .error (.violated .share) := by
  unfold setShare checkShare
  by_cases hunit : Scalar.inUnit share = true
  · rw [if_pos hunit, if_pos hunit]
    rfl
  · rw [if_neg hunit, if_neg hunit]
    rfl

/-- A share that is accepted replaces the one that the machine kept. -/
theorem setShare_ok {m m' : Machine α} {r : Resource} {share : α}
    (h : m.setShare r share = .ok m') :
    Scalar.inUnit share = true ∧ m' = { m with shares := m.shares.set r share } := by
  rw [setShare_eq] at h
  by_cases hunit : Scalar.inUnit share = true
  · rw [if_pos hunit] at h
    by_cases hrefuses : m.refuses = true
    · rw [if_pos hrefuses] at h
      cases h
    · rw [if_neg hrefuses] at h
      cases h
      exact ⟨hunit, rfl⟩
  · rw [if_neg hunit] at h
    cases h

/-- A machine keeps its shares from the beginning. -/
theorem keepsShares_new [OrderedScalar α] (id : String) (capacity : α) :
    (new id capacity).KeepsShares :=
  ⟨rfl, fun r => by cases r <;> exact OrderedScalar.inUnit_one⟩

theorem KeepsShares.withShares {m m' : Machine α} (hm : m.KeepsShares) {cpu memory : α}
    (h : m.withShares cpu memory = .ok m') : m'.KeepsShares := by
  obtain ⟨c, hcpu, hrest⟩ := bind_eq_ok_iff.mp h
  obtain ⟨k, hmemory, hdone⟩ := bind_eq_ok_iff.mp hrest
  obtain ⟨hc, rfl⟩ := checkShare_eq_ok_iff.mp hcpu
  obtain ⟨hk, rfl⟩ := checkShare_eq_ok_iff.mp hmemory
  cases hdone
  refine ⟨hm.reported, fun r => ?_⟩
  cases r with
  | cpu => exact hc
  | memory => exact hk

theorem KeepsShares.setShare {m m' : Machine α} (hm : m.KeepsShares) {r : Resource} {share : α}
    (h : m.setShare r share = .ok m') : m'.KeepsShares := by
  obtain ⟨hunit, rfl⟩ := setShare_ok h
  refine ⟨hm.reported, fun k => ?_⟩
  show Scalar.inUnit ((m.shares.set r share).get k) = true
  rw [PerResource.get_set]
  by_cases hk : k = r
  · rw [if_pos hk]
    exact hunit
  · rw [if_neg hk]
    exact hm.inUnit k

end Machine

namespace Controller

/-! ## §2. Decisions. -/

/-- **A decision** is one of three: there is nothing to decide from, or inference fails, and
no machine is touched; or the changes of all machines are sent. -/
theorem decide_cases (c : Controller α) (t : Testbed α) (readings : List (TargetReading α)) :
    (∃ reason, drivingError (c.managed t) readings = .error reason
        ∧ c.decide t readings = ⟨.skipped reason, c.engine, t.machines, []⟩)
      ∨ ∃ error, drivingError (c.managed t) readings = .ok error
        ∧ ((∃ e, (inferAll c.engine error (residuals (c.managed t))).result = .error e
            ∧ c.decide t readings
              = ⟨.failed e, (inferAll c.engine error (residuals (c.managed t))).engine, t.machines,
                [.notApplied e]⟩)
          ∨ ∃ deltas, (inferAll c.engine error (residuals (c.managed t))).result = .ok deltas
            ∧ c.decide t readings
              = ⟨.applied, (inferAll c.engine error (residuals (c.managed t))).engine,
                (actuate t.machines deltas).1, (actuate t.machines deltas).2⟩) := by
  unfold Controller.decide
  cases hdriving : drivingError (c.managed t) readings with
  | error reason =>
    left
    refine ⟨reason, rfl, ?_⟩
    simp only [hdriving]
  | ok error =>
    right
    refine ⟨error, rfl, ?_⟩
    simp only [hdriving]
    cases inferAll c.engine error (residuals (c.managed t)) with
    | mk engine result =>
      cases result with
      | error e => exact Or.inl ⟨e, rfl, rfl⟩
      | ok deltas => exact Or.inr ⟨deltas, rfl, rfl⟩

theorem length_actuate (ms : List (Machine α)) (ds : List (PerResource α)) :
    (actuate ms ds).1.length = ms.length := by
  induction ms generalizing ds with
  | nil => rfl
  | cons m ms ih =>
    cases ds with
    | nil => rfl
    | cons d ds => exact congrArg (· + 1) (ih ds)

theorem length_decide (c : Controller α) (t : Testbed α) (readings : List (TargetReading α)) :
    (c.decide t readings).machines.length = t.machines.length := by
  rcases decide_cases c t readings with ⟨_, _, h⟩ | ⟨_, _, ⟨_, _, h⟩ | ⟨deltas, _, h⟩⟩
  · rw [h]
  · rw [h]
  · rw [h]
    exact length_actuate t.machines deltas

/-! ## §3. Changes. -/

theorem set_get_self {β : Type} (t : PerResource β) (r : Resource) : t.set r (t.get r) = t := by
  cases r <;> rfl

variable [OrderedScalar α]

/-- **One change**: the share is what is to be sent, unless nothing is or the machine
refuses. -/
theorem actuateResource_fst {m : Machine α} (hm : m.KeepsShares) (r : Resource) (delta : α) :
    (actuateResource m r delta).1
      = { m with shares := m.shares.set r (m.shareAfter r delta) } := by
  unfold actuateResource Machine.shareAfter
  rw [Machine.share_eq hm]
  cases hnext : nextShare (m.shares.get r) delta with
  | none =>
    have hkept : (if m.refuses = true then m.shares.get r
        else (none : Option α).getD (m.shares.get r)) = m.shares.get r := ite_self _
    rw [hkept, set_get_self]
  | some share =>
    simp only
    rw [Machine.setShare_eq, if_pos (inUnit_of_nextShare hnext)]
    by_cases hrefuses : m.refuses = true
    · rw [if_pos hrefuses, if_pos hrefuses, set_get_self]
    · rw [if_neg hrefuses, if_neg hrefuses]
      rfl

theorem inUnit_shareAfter {m : Machine α} (hm : m.KeepsShares) (r : Resource) (delta : α) :
    Scalar.inUnit (m.shareAfter r delta) = true := by
  unfold Machine.shareAfter
  by_cases hrefuses : m.refuses = true
  · rw [if_pos hrefuses]
    exact hm.inUnit r
  · rw [if_neg hrefuses]
    cases hnext : nextShare (m.shares.get r) delta with
    | none => exact hm.inUnit r
    | some share => exact inUnit_of_nextShare hnext

theorem keepsShares_moved {m : Machine α} (hm : m.KeepsShares) (deltas : PerResource α) :
    (m.moved deltas).KeepsShares := by
  refine ⟨hm.reported, fun r => ?_⟩
  rw [Machine.get_shares_moved]
  exact inUnit_shareAfter hm r _

/-- **Both changes of a machine**: neither disturbs the other. -/
theorem actuateMachine_fst {m : Machine α} (hm : m.KeepsShares) (deltas : PerResource α) :
    (actuateMachine m deltas).1 = m.moved deltas := by
  have hfirst := actuateResource_fst hm .cpu deltas.cpu
  have hkeeps : (actuateResource m .cpu deltas.cpu).1.KeepsShares := by
    rw [hfirst]
    refine ⟨hm.reported, fun r => ?_⟩
    cases r with
    | cpu => exact inUnit_shareAfter hm .cpu deltas.cpu
    | memory => exact hm.inUnit .memory
  -- The machine after the first change still keeps its shares, so the second one is like it.
  show (actuateResource (actuateResource m .cpu deltas.cpu).1 .memory deltas.memory).1 = _
  rw [actuateResource_fst hkeeps, hfirst]
  rfl

/-- **The changes of all machines**: each machine that there are changes for has them, the
others are as they were. -/
theorem getElem?_actuate {ms : List (Machine α)} (hms : ∀ m ∈ ms, m.KeepsShares)
    (ds : List (PerResource α)) (i : Nat) :
    (actuate ms ds).1[i]? = ms[i]?.map fun m =>
      match ds[i]? with
      | some deltas => m.moved deltas
      | none => m := by
  induction ms generalizing ds i with
  | nil => rfl
  | cons m ms ih =>
    cases ds with
    | nil => simp [actuate]
    | cons d ds =>
      -- The head has its changes before the tail, whether it refused them or not.
      have hhead := actuateMachine_fst (hms m List.mem_cons_self) d
      have htail := ih fun k hk => hms k (List.mem_cons_of_mem m hk)
      show ((actuateMachine m d).1 :: (actuate ms ds).1)[i]? = _
      rw [hhead]
      cases i with
      | zero => rfl
      | succ i => exact htail ds i

theorem keepsShares_actuate {ms : List (Machine α)} (hms : ∀ m ∈ ms, m.KeepsShares)
    (ds : List (PerResource α)) : ∀ m ∈ (actuate ms ds).1, m.KeepsShares := by
  intro m' hm'
  obtain ⟨i, hi⟩ := List.mem_iff_getElem?.mp hm'
  rw [getElem?_actuate hms, Option.map_eq_some_iff] at hi
  obtain ⟨m, hm, rfl⟩ := hi
  have hkeeps := hms m (List.mem_of_getElem? hm)
  cases ds[i]? with
  | none => exact hkeeps
  | some deltas => exact keepsShares_moved hkeeps deltas

end Controller

end CapacityControl.Control
