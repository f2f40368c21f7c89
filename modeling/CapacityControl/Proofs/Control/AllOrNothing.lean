/-
  CapacityControl.Proofs.Control.AllOrNothing
  ───────────────────────────────────────────
  A CONTROL MOVES ALL SHARES OR NONE.  Every decision is made before the first share is
  touched, from the shares and levels as they are then; the first failure ends the
  control with nothing done.  Once all decisions are made each managed machine gets its
  own changes, and a machine that refuses them does not stand in the way of the others
  (`control_all_or_nothing`).
-/
import CapacityControl.Proofs.Control.Reachable

namespace CapacityControl.Control

open Fuzzy

variable {α : Type} [Scalar α]

/-! ## §1. What a control decides from. -/

/-- What a machine leaves over of its shares, by the levels of its channels. -/
def Machine.residuals (m : Machine α) (cs : PerResource (Channel α)) : PerResource α :=
  ⟨cs.cpu.residual m.shares.cpu, cs.memory.residual m.shares.memory⟩

namespace Controller

theorem residuals_eq {managed : List (Machine α × PerResource (Channel α))}
    (h : ∀ pair ∈ managed, pair.1.KeepsShares) :
    residuals managed = managed.map fun pair => (pair.1.id, pair.1.residuals pair.2) := by
  unfold residuals
  refine List.map_congr_left fun pair hpair => ?_
  show (pair.1.id, PerResource.mk (pair.2.cpu.residual (pair.1.share .cpu))
    (pair.2.memory.residual (pair.1.share .memory))) = _
  rw [Machine.share_eq (h pair hpair), Machine.share_eq (h pair hpair)]
  rfl

theorem keepsShares_managed (c : Controller α) {t : Testbed α} (ht : t.Keeps) :
    ∀ pair ∈ c.managed t, pair.1.KeepsShares := by
  intro pair hpair
  exact ht pair.1 (List.of_mem_zip hpair).1

omit [Scalar α] in
theorem getElem?_managed (c : Controller α) (t : Testbed α) (i : Nat) :
    (c.managed t)[i]? = match t.machines[i]?, c.channels[i]? with
      | some m, some cs => some (m, cs)
      | _, _ => none := by
  unfold managed List.zip
  rw [List.getElem?_zipWith]
  cases t.machines[i]? <;> cases c.channels[i]? <;> rfl

/-- The decision for each managed machine is that of the surface, asked for it alone. -/
theorem getElem?_inferAll {c : Controller α} (hc : c.Sound) {t : Testbed α} (ht : t.Keeps)
    {error : α} {deltas : List (PerResource α)}
    (h : (inferAll c.engine error (residuals (c.managed t))).result = .ok deltas) (i : Nat) :
    deltas[i]? = match t.machines[i]?, c.channels[i]? with
      | some m, some cs => surfaceDeltas? (m.residuals cs) error
      | _, _ => none := by
  -- The decisions of all are those of each alone, so they can be compared place by place.
  rw [inferAll_ok_iff hc.restart, residuals_eq (c.keepsShares_managed ht), List.map_map] at h
  have hi := congrArg (·[i]?) h
  simp only [List.getElem?_map, getElem?_managed] at hi
  cases hm : t.machines[i]? with
  | none =>
    rw [hm] at hi
    exact Option.map_eq_none_iff.mp hi.symm
  | some m =>
    cases hcs : c.channels[i]? with
    | none =>
      rw [hm, hcs] at hi
      exact Option.map_eq_none_iff.mp hi.symm
    | some cs =>
      rw [hm, hcs] at hi
      obtain ⟨d, hd, hok⟩ := Option.map_eq_some_iff.mp hi.symm
      have hsurface := (alone_ok_iff error (m.id, m.residuals cs) d).mp hok.symm
      rw [hd]
      exact hsurface.symm

/-- A machine for which the surface recommends no numbers fails the whole decision. -/
theorem inferAll_fails {c : Controller α} (hc : c.Sound) {t : Testbed α} (ht : t.Keeps)
    {error : α} {i : Nat} {m : Machine α} {cs : PerResource (Channel α)}
    (hm : t.machines[i]? = some m) (hcs : c.channels[i]? = some cs)
    (hnone : surfaceDeltas? (m.residuals cs) error = none) :
    ∃ e, (inferAll c.engine error (residuals (c.managed t))).result = .error e := by
  rw [inferAll_error_iff hc.restart, residuals_eq (c.keepsShares_managed ht)]
  refine ⟨(m.id, m.residuals cs), List.mem_map.mpr ⟨(m, cs), ?_, rfl⟩, hnone⟩
  refine List.mem_of_getElem? (i := i) ?_
  rw [getElem?_managed, hm, hcs]

/-! ## §2. What a control does. -/

/-- **All machines moved as decided**: each managed one by the changes that the surface
recommends for what it left over before, and no other. -/
structure Moved (c : Controller α) (error : α) (before after : List (Machine α)) : Prop where
  managed : ∀ (i : Nat) (m : Machine α) (cs : PerResource (Channel α)),
    before[i]? = some m → c.channels[i]? = some cs →
      ∃ deltas m', surfaceDeltas? (m.residuals cs) error = some deltas ∧ after[i]? = some m'
        ∧ ∀ r, m'.shares.get r = m.shareAfter r (deltas.get r)
  others : ∀ i : Nat, before[i]? = none ∨ c.channels[i]? = none → after[i]? = before[i]?

variable [OrderedScalar α]

theorem moved_actuate {c : Controller α} (hc : c.Sound) {t : Testbed α} (ht : t.Keeps)
    {error : α} {deltas : List (PerResource α)}
    (h : (inferAll c.engine error (residuals (c.managed t))).result = .ok deltas) :
    c.Moved error t.machines (actuate t.machines deltas).1 := by
  refine ⟨fun i m cs hm hcs => ?_, fun i hi => ?_⟩
  · have hdeltas := getElem?_inferAll hc ht h i
    have hafter := getElem?_actuate ht deltas i
    rw [hm, hcs] at hdeltas
    rw [hm] at hafter
    cases hsurface : surfaceDeltas? (m.residuals cs) error with
    | none =>
      -- Then the machine would have failed the whole decision.
      obtain ⟨e, he⟩ := inferAll_fails hc ht hm hcs hsurface
      rw [h] at he
      cases he
    | some d =>
      have hd : deltas[i]? = some d := hdeltas.trans hsurface
      rw [hd] at hafter
      exact ⟨d, m.moved d, rfl, hafter, m.get_shares_moved d⟩
  · have hdeltas := getElem?_inferAll hc ht h i
    rw [getElem?_actuate ht deltas i]
    cases hm : t.machines[i]? with
    | none => rfl
    | some m =>
      have hcs : c.channels[i]? = none := hi.resolve_left (by rw [hm]; exact Option.some_ne_none m)
      rw [hm, hcs] at hdeltas
      rw [hdeltas]
      rfl

end Controller

/-- **All or nothing.**  At any reachable station a control of the fuzzy controller comes to an
outcome.  If it is not applied, no machine is touched; if it is, every managed machine has
moved as the surface recommends for the shares and levels before the control.  One machine
for which it recommends no numbers is enough for the control to fail. -/
theorem control_all_or_nothing [OrderedScalar α] {s : Station α} (hs : s.Reachable)
    {c : Controller α} (hc : s.manager.policy = .fuzzy c) (stamp : Int) :
    ∃ outcome, (s.perform stamp .control).result = .ok (.controlled outcome)
      ∧ (outcome ≠ .applied → (s.perform stamp .control).station.testbed = s.testbed)
      ∧ (outcome = .applied → ∃ error,
          Controller.drivingError (c.managed s.testbed) s.manager.core.readings = .ok error
            ∧ c.Moved error s.testbed.machines
              (s.perform stamp .control).station.testbed.machines)
      ∧ ∀ (error : α) (i : Nat) (m : Machine α) (cs : PerResource (Channel α)),
          Controller.drivingError (c.managed s.testbed) s.manager.core.readings = .ok error →
          s.testbed.machines[i]? = some m → c.channels[i]? = some cs →
          surfaceDeltas? (m.residuals cs) error = none → ∃ cause, outcome = .failed cause := by
  have hsound := hs.sound.policy c hc
  have hkeeps : s.testbed.Keeps := hs.sound.machines
  have hresult : (s.perform stamp .control).result
      = .ok (.controlled (c.decide s.testbed s.manager.core.readings).outcome) := by
    show Except.ok (Reply.controlled (s.manager.policy.control _ _ _ _).outcome) = _
    rw [hc]
    rfl
  have htestbed : (s.perform stamp .control).station.testbed
      = { s.testbed with machines := (c.decide s.testbed s.manager.core.readings).machines } := by
    show (s.manager.policy.control _ _ _ _).testbed = _
    rw [hc]
    rfl
  refine ⟨_, hresult, ?_⟩
  rw [htestbed]
  -- Either there is nothing to decide from, or inference fails, or all changes are sent.
  rcases c.decide_cases s.testbed s.manager.core.readings with
    ⟨reason, hdriving, hdecide⟩ | ⟨error, hdriving, ⟨e, hinfer, hdecide⟩ | ⟨deltas, hinfer, hdecide⟩⟩
  · rw [hdecide]
    refine ⟨fun _ => rfl, fun h => ?_, fun error i m cs hok => ?_⟩
    · cases h
    · rw [hdriving] at hok
      cases hok
  · rw [hdecide]
    refine ⟨fun _ => rfl, fun h => ?_, fun _ _ _ _ _ _ _ _ => ⟨e, rfl⟩⟩
    cases h
  · rw [hdecide]
    refine ⟨fun h => absurd rfl h, fun _ => ⟨error, hdriving, ?_⟩, fun other i m cs hok hm hcs hnone => ?_⟩
    · exact Controller.moved_actuate hsound hkeeps hinfer
    · rw [hdriving] at hok
      cases hok
      obtain ⟨e, he⟩ := Controller.inferAll_fails hsound hkeeps hm hcs hnone
      rw [hinfer] at he
      cases he

namespace Station

/-- Whether the surface recommends no numbers for a managed machine, as it can be decided. -/
def lacksAdvice (s : Station α) (i : Nat) : Bool :=
  match s.manager.policy with
  | .monitor _ => false
  | .fuzzy c =>
    match Controller.drivingError (c.managed s.testbed) s.manager.core.readings,
      s.testbed.machines[i]?, c.channels[i]? with
    | .ok error, some m, some cs => (surfaceDeltas? (m.residuals cs) error).isNone
    | _, _, _ => false

theorem exists_of_lacksAdvice {s : Station α} {i : Nat} (h : s.lacksAdvice i = true) :
    ∃ c error m cs, s.manager.policy = .fuzzy c
      ∧ Controller.drivingError (c.managed s.testbed) s.manager.core.readings = .ok error
      ∧ s.testbed.machines[i]? = some m ∧ c.channels[i]? = some cs
      ∧ surfaceDeltas? (m.residuals cs) error = none := by
  unfold lacksAdvice at h
  split at h
  · cases h
  · next c hc =>
    split at h
    · next error m cs hdriving hm hcs =>
      exact ⟨c, error, m, cs, hc, hdriving, hm, hcs, Option.isNone_iff_eq_none.mp h⟩
    · cases h

/-- A station for trials with two machines, the second of which refuses updates, after a reset
and one sample.  A response is required in a time of one and takes the given time. -/
def paired (time : Extended) : Station Extended :=
  (new untried (.new [.new "willing" 1.0, .new "refusing" 1.0])).after
    [(0, .bind), (0, .setTarget .responseTime 1.0), (0, .refuse 1 true), (0, .reset),
      (0, .feed [.machine 0 .cpu 0.5, .machine 0 .memory 0.25, .machine 1 .cpu 0.5,
        .machine 1 .memory 0.25, .output .responseTime time]), (0, .sample)]

theorem reachable_paired (time : Extended) : (paired time).Reachable := by
  refine Reachable.after (.start isNew_untried ?_ .fresh) _
  intro m hm
  rcases List.mem_pair.mp hm with rfl | rfl
  · exact Machine.keepsShares_new "willing" 1.0
  · exact Machine.keepsShares_new "refusing" 1.0

/-- The control is applied, although the second machine keeps what it had. -/
theorem control_paired :
    ((paired 0.5).perform 0 .control).result = .ok (.controlled .applied)
      ∧ ((paired 0.5).perform 0 .control).station.testbed.shares
        = [⟨0.45, 0.45⟩, ⟨1.0, 1.0⟩] := by
  -- Decided together, so that the control is evaluated once.
  have hdecided : ((paired 0.5).perform 0 .control).result.toOption.map Reply.isApplied = some true
      ∧ ((paired 0.5).perform 0 .control).station.testbed.shares
        = [⟨0.45, 0.45⟩, ⟨1.0, 1.0⟩] := by decide +kernel
  exact ⟨Performed.result_of_isApplied hdecided.1, hdecided.2⟩

end Station

open Station

/-- With two machines and a response in half its time the control is applied: the willing machine
has less afterwards, and the one that refuses has what it had.  For a response three tenths
faster than required the surface recommends no numbers: the control fails, and neither machine
is touched. -/
theorem control_moves_trial :
    (paired 0.5).Reachable
      ∧ (∃ c error, (paired 0.5).manager.policy = .fuzzy c ∧ c.channels.length = 2
        ∧ ((paired 0.5).perform 0 .control).result = .ok (.controlled .applied)
        ∧ c.Moved error (paired 0.5).testbed.machines
          ((paired 0.5).perform 0 .control).station.testbed.machines)
      ∧ (paired 0.5).testbed.shares = [⟨1.0, 1.0⟩, ⟨1.0, 1.0⟩]
      ∧ ((paired 0.5).perform 0 .control).station.testbed.shares = [⟨0.45, 0.45⟩, ⟨1.0, 1.0⟩]
      ∧ (paired 0.7).Reachable
      ∧ ∃ cause, ((paired 0.7).perform 0 .control).result = .ok (.controlled (.failed cause))
        ∧ ((paired 0.7).perform 0 .control).station.testbed = (paired 0.7).testbed := by
  obtain ⟨happlied, hshares⟩ := control_paired
  have hchannels : (paired 0.5).manager.policy.channels = 2 := by decide +kernel
  obtain ⟨c, hc⟩ := Policy.exists_fuzzy (p := (paired 0.5).manager.policy) (by decide +kernel)
  rw [hc] at hchannels
  obtain ⟨error, hmoved⟩ : ∃ error, c.Moved error (paired 0.5).testbed.machines
      ((paired 0.5).perform 0 .control).station.testbed.machines := by
    obtain ⟨outcome, hresult, _, hmoved, _⟩ :=
      control_all_or_nothing (reachable_paired 0.5) hc 0
    cases happlied.symm.trans hresult
    obtain ⟨error, _, hmoved⟩ := hmoved rfl
    exact ⟨error, hmoved⟩
  have hfailed : ∃ cause, ((paired 0.7).perform 0 .control).result
        = .ok (.controlled (.failed cause))
      ∧ ((paired 0.7).perform 0 .control).station.testbed = (paired 0.7).testbed := by
    obtain ⟨c, error, m, cs, hc, hdriving, hm, hcs, hnone⟩ :=
      exists_of_lacksAdvice (s := paired 0.7) (i := 1) (by decide +kernel)
    obtain ⟨outcome, hresult, hkept, _, hfails⟩ :=
      control_all_or_nothing (reachable_paired 0.7) hc 0
    obtain ⟨cause, rfl⟩ := hfails error 1 m cs hdriving hm hcs hnone
    exact ⟨cause, hresult, hkept fun h => by cases h⟩
  exact ⟨reachable_paired 0.5, ⟨c, error, hc, hchannels, happlied, hmoved⟩, by decide +kernel,
    hshares, reachable_paired 0.7, hfailed⟩

end CapacityControl.Control
