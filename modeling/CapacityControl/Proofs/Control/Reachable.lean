/-
  CapacityControl.Proofs.Control.Reachable
  ────────────────────────────────────────
  WHERE A STATION CAN GET TO.  A station begins with a new manager over machines that
  keep their shares, and then anything happens to it in any order: settings, readings,
  failures, steps, paced or not (`Station.Reachable`).  Whatever happened, the machines
  keep their shares in `[0, 1]`, the settings are sound, and the engine of a fuzzy
  controller can be restarted to the control surface (`Station.Reachable.sound`).
-/
import CapacityControl.Proofs.Control.Actuation
import CapacityControl.Proofs.Control.Alone
import CapacityControl.Proofs.Control.Beginning
import CapacityControl.Proofs.Control.Settings
import Mathlib.Data.List.Induction

namespace CapacityControl.Control

open Stats Fuzzy

variable {α : Type} [Scalar α]

/-! ## §1. Reachable stations. -/

/-- A policy as it is created. -/
inductive Policy.IsNew : Policy α → Prop
  | fuzzy {factor : α} {c : Controller α} (h : Controller.new factor = .ok c) : IsNew (.fuzzy c)
  | monitor : IsNew (.monitor .new)

/-- **The states that a station can come to.**  It may stand on any files, and its pacer may
stand anywhere, so the states between two calls of a paced run are among them. -/
inductive Station.Reachable : Station α → Prop
  | start {p : Policy α} {t : Testbed α} (hp : p.IsNew) (ht : ∀ m ∈ t.machines, m.KeepsShares)
      (storage : Storage) : Reachable { Station.new p t with storage := storage }
  | perform {s : Station α} (hs : Reachable s) (stamp : Int) (a : Action α) :
      Reachable (s.perform stamp a).station
  | paced {s : Station α} (hs : Reachable s) (pacer : Option (Pacer α)) :
      Reachable { s with pacer := pacer }

namespace Station

/-- The station after a run: actions, each at its time. -/
def after (s : Station α) (run : List (Int × Action α)) : Station α :=
  run.foldl (fun s x => (s.perform x.1 x.2).station) s

theorem after_append (s : Station α) (run more : List (Int × Action α)) :
    s.after (run ++ more) = (s.after run).after more :=
  List.foldl_append

theorem after_concat (s : Station α) (run : List (Int × Action α)) (x : Int × Action α) :
    s.after (run ++ [x]) = ((s.after run).perform x.1 x.2).station := by
  unfold after
  rw [List.foldl_append]
  rfl

theorem Reachable.after {s : Station α} (hs : s.Reachable) (run : List (Int × Action α)) :
    (s.after run).Reachable := by
  induction run using List.reverseRecOn with
  | nil => exact hs
  | append_singleton run x ih =>
    rw [after_concat]
    exact ih.perform x.1 x.2

end Station

/-! ## §2. The invariant. -/

/-- The smoothing factor is one, and a restart leads back to the control surface. -/
structure Controller.Sound (c : Controller α) : Prop where
  factor : (0.0 : α) < c.smoothingFactor ∧ c.smoothingFactor ≤ 1.0
  restart : c.engine.restart = surface

/-- The controller of a policy, if it has one, is sound. -/
def Policy.Sound (p : Policy α) : Prop := ∀ c, p = .fuzzy c → c.Sound

/-- What holds of a station at any time. -/
structure Station.Sound (s : Station α) : Prop where
  machines : ∀ m ∈ s.testbed.machines, m.KeepsShares
  core : s.manager.core.Sound
  policy : s.manager.policy.Sound

/-! ## §3. The testbed. -/

namespace Testbed

/-- Every machine of the testbed keeps its shares. -/
def Keeps (t : Testbed α) : Prop := ∀ m ∈ t.machines, m.KeepsShares

theorem Keeps.withMachine {t : Testbed α} (ht : t.Keeps) (index : Nat)
    {f : Machine α → Machine α} (hf : ∀ m, m.KeepsShares → (f m).KeepsShares) :
    (t.withMachine index f).Keeps := by
  intro m hm
  obtain ⟨i, hi⟩ := List.mem_iff_getElem?.mp hm
  change (t.machines.modify index f)[i]? = some m at hi
  rw [List.getElem?_modify] at hi
  obtain ⟨before, hbefore, rfl⟩ := Option.map_eq_some_iff.mp hi
  have hkeeps := ht before (List.mem_of_getElem? hbefore)
  split
  · exact hf before hkeeps
  · exact hkeeps

theorem Keeps.push {t : Testbed α} (ht : t.Keeps) (item : Item α) :
    (Station.push t item).Keeps := by
  cases item with
  | machine index r value =>
    exact ht.withMachine index fun m hm => ⟨hm.reported, hm.inUnit⟩
  | output m value => exact ht

theorem Keeps.feed {t : Testbed α} (ht : t.Keeps) (items : List (Item α)) :
    (items.foldl Station.push t).Keeps := by
  induction items generalizing t with
  | nil => exact ht
  | cons item items ih => exact ih (ht.push item)

end Testbed

namespace Station

omit [Scalar α] in
theorem length_push (t : Testbed α) (item : Item α) :
    (push t item).machines.length = t.machines.length := by
  cases item with
  | machine index r value => exact List.length_modify _ _ _
  | output m value => rfl

omit [Scalar α] in
theorem length_feed (t : Testbed α) (items : List (Item α)) :
    (items.foldl push t).machines.length = t.machines.length := by
  induction items generalizing t with
  | nil => rfl
  | cons item items ih => rw [List.foldl_cons, ih, length_push]

end Station

/-! ## §4. The policies. -/

namespace Controller

theorem keepsShares_sampleMachines {ms : List (Machine α)} (hms : ∀ m ∈ ms, m.KeepsShares)
    (css : List (PerResource (Channel α))) :
    ∀ m ∈ (sampleMachines ms css).machines, m.KeepsShares := by
  induction ms generalizing css with
  | nil => exact hms
  | cons m ms ih =>
    cases css with
    | nil => exact hms
    | cons cs css =>
      have hhead := hms m List.mem_cons_self
      have htail := ih (fun k hk => hms k (List.mem_cons_of_mem m hk)) css
      intro k hk
      rcases List.mem_cons.mp hk with rfl | hk
      -- Reading replaces the sensors and nothing else.
      · exact ⟨hhead.reported, hhead.inUnit⟩
      · exact htail k hk

theorem sound_new {factor : α} {c : Controller α} (h : new factor = .ok c) : c.Sound := by
  obtain ⟨checked, hchecked, rfl⟩ := map_eq_ok_iff.mp h
  exact ⟨(ensureFactor_ok hchecked).2, restart_surface⟩

theorem Sound.withFactor {c d : Controller α} (hc : c.Sound) {factor : α}
    (h : c.withFactor factor = .ok d) : d.Sound := by
  obtain ⟨checked, hchecked, rfl⟩ := map_eq_ok_iff.mp h
  exact ⟨(ensureFactor_ok hchecked).2, hc.restart⟩

theorem restart_restart (e : Engine α) : e.restart.restart = e.restart := by
  simp [Engine.restart, Output.cleared]

theorem restart_decide {c : Controller α} (hc : c.Sound) (t : Testbed α)
    (readings : List (TargetReading α)) : (c.decide t readings).engine.restart = surface := by
  rcases decide_cases c t readings with ⟨_, _, h⟩ | ⟨error, _, ⟨_, _, h⟩ | ⟨_, _, h⟩⟩
  · rw [h]
    exact hc.restart
  · rw [h]
    exact restart_inferAll hc.restart error _
  · rw [h]
    exact restart_inferAll hc.restart error _

end Controller

namespace Policy

theorem sound_of_isNew {p : Policy α} (hp : p.IsNew) : p.Sound := by
  intro c hc
  cases hp with
  | fuzzy h =>
    cases hc
    exact Controller.sound_new h
  | monitor => cases hc

theorem Sound.withFactor {p q : Policy α} (hp : p.Sound) {factor : α}
    (h : p.withFactor factor = .ok q) : q.Sound := by
  intro d hd
  cases p with
  | fuzzy c =>
    obtain ⟨c', hc', rfl⟩ := map_eq_ok_iff.mp h
    cases hd
    exact (hp c rfl).withFactor hc'
  | monitor c =>
    cases h
    cases hd

theorem Sound.haltedAt {p : Policy α} (hp : p.Sound) (core : Core α) (fault : WiringFault) :
    (p.haltedAt core fault).Sound := by
  intro d hd
  cases p with
  | fuzzy c =>
    cases fault with
    | _ =>
      cases hd
      exact ⟨(hp _ rfl).factor, (hp _ rfl).restart⟩
  | monitor c =>
    cases fault with
    | _ => cases hd

theorem Sound.begun {p : Policy α} (hp : p.Sound) (core : Core α) (t : Testbed α)
    (log : Option Log.DataLog) : (p.begun core t log).Sound := by
  intro d hd
  cases p with
  | fuzzy c =>
    cases hd
    exact ⟨(hp c rfl).factor, (Controller.restart_restart _).trans (hp c rfl).restart⟩
  | monitor c => cases hd

theorem Sound.sample {p : Policy α} (hp : p.Sound) (core : Core α) (t : Testbed α) :
    (p.sample core t).policy.Sound := by
  intro d hd
  cases p with
  | fuzzy c =>
    cases hd
    exact ⟨(hp c rfl).factor, (hp c rfl).restart⟩
  | monitor c => cases hd

theorem Sound.control {p : Policy α} (hp : p.Sound) (core : Core α) (t : Testbed α)
    (storage : Storage) (stamp : Int) : (p.control core t storage stamp).policy.Sound := by
  intro d hd
  cases p with
  | fuzzy c =>
    cases hd
    exact ⟨(hp c rfl).factor, Controller.restart_decide (hp c rfl) t core.readings⟩
  | monitor c => cases hd

end Policy

/-- **What the changes of a configuration keep**, applying it keeps, whether it is taken over or
not. -/
theorem Manager.apply_invariant {P : Manager α → Prop} {config : Config α}
    (hcore : ∀ m core, ∀ change ∈ config.changes, P m → change m.core = .ok core →
      P { m with core := core })
    (hpolicy : ∀ m policy, P m → m.policy.withFactor config.smoothingFactor = .ok policy →
      P { m with policy := policy })
    {m : Manager α} (hm : P m) : P (m.apply config).state := by
  refine inTurn_invariant (fun change hchange m m' hm h => ?_) hm
  simp only [List.cons_append, List.mem_cons, List.mem_append, List.mem_map, List.not_mem_nil,
    or_false] at hchange
  rcases hchange with rfl | ⟨change, hchange, rfl⟩ | rfl
  -- The check changes nothing; then the core is changed, and last the policy.
  · obtain ⟨_, _, rfl⟩ := map_eq_ok_iff.mp h
    exact hm
  · obtain ⟨core, hchanged, rfl⟩ := map_eq_ok_iff.mp h
    exact hcore m core change hchange hm hchanged
  · obtain ⟨policy, hchanged, rfl⟩ := map_eq_ok_iff.mp h
    exact hpolicy m policy hm (mapError_eq_ok_iff.mp hchanged)

/-! ## §5. What happens to a station. -/

namespace Station

theorem sound_start {p : Policy α} {t : Testbed α} (hp : p.IsNew) (ht : t.Keeps)
    (storage : Storage) : Sound { Station.new p t with storage := storage } :=
  ⟨ht, Core.sound_initial, Policy.sound_of_isNew hp⟩

theorem Sound.withCore {s : Station α} (hs : s.Sound) {core : Core α} (hcore : core.Sound) :
    (s.withCore core).Sound :=
  ⟨hs.machines, hcore, hs.policy⟩

theorem Sound.feed {s : Station α} (hs : s.Sound) (items : List (Item α)) :
    (s.feed items).Sound :=
  ⟨Testbed.Keeps.feed hs.machines items, hs.core, hs.policy⟩

theorem Sound.withTestbed {s : Station α} (hs : s.Sound) {t : Testbed α} (ht : t.Keeps) :
    Sound { s with testbed := t } :=
  ⟨ht, hs.core, hs.policy⟩

/-- A change that is refused leaves the station as it was. -/
theorem Sound.attempt {β : Type} {s : Station α} (hs : s.Sound) {r : Except (Error α) β}
    {f : β → Station α} (hf : ∀ v, r = .ok v → (f v).Sound) : (s.attempt r f).station.Sound := by
  cases r with
  | error e => exact hs
  | ok v => exact hf v rfl

theorem Sound.setShare {s : Station α} (hs : s.Sound) (index : Nat) (r : Resource) (share : α) :
    (s.setShare index r share).station.Sound := by
  unfold Station.setShare
  cases hget : s.testbed.machines[index]? with
  | none => exact hs
  | some m =>
    have hm := hs.machines m (List.mem_of_getElem? hget)
    refine hs.attempt fun m' hm' => hs.withTestbed ?_
    exact Testbed.Keeps.withMachine hs.machines index fun _ _ => hm.setShare hm'

theorem Sound.reset {s : Station α} (hs : s.Sound) : s.reset.station.Sound := by
  rcases s.reset_cases with ⟨hstation, _⟩ | ⟨fault, _, hstation, _⟩ | ⟨_, _, hstation, _⟩
  · rw [hstation]
    exact hs
  · rw [hstation]
    exact ⟨hs.machines, hs.core.resetStatistics, hs.policy.haltedAt _ fault⟩
  · rw [hstation]
    exact ⟨hs.machines, hs.core.resetStatistics, hs.policy.begun _ _ _⟩

theorem Sound.apply {s : Station α} (hs : s.Sound) (config : Config α) :
    (s.apply config).station.Sound := by
  have hmanager : (s.manager.apply config).state.core.Sound
      ∧ (s.manager.apply config).state.policy.Sound :=
    Manager.apply_invariant (P := fun m => m.core.Sound ∧ m.policy.Sound)
      (fun _ _ _ hchange hm hcore => ⟨hm.1.changed hchange hcore, hm.2⟩)
      (fun _ _ hm hpolicy => ⟨hm.1, hm.2.withFactor hpolicy⟩) ⟨hs.core, hs.policy⟩
  exact ⟨hs.machines, hmanager.1, hmanager.2⟩

theorem Sound.sample {s : Station α} (hs : s.Sound) : s.sample.station.Sound := by
  refine ⟨?_, ?_, hs.policy.sample _ _⟩
  -- Both policies read the sensors of the application; only the fuzzy one reads the machines.
  · show Testbed.Keeps (s.manager.policy.sample s.manager.core s.testbed).testbed
    unfold Testbed.Keeps
    cases s.manager.policy with
    | fuzzy c =>
      show ∀ m ∈ (s.manager.core.sample _ c.wired).testbed.machines, _
      rw [Core.machines_sample]
      exact Controller.keepsShares_sampleMachines hs.machines c.channels
    | monitor c =>
      show ∀ m ∈ (s.manager.core.sample s.testbed c.wired).testbed.machines, _
      rw [Core.machines_sample]
      exact hs.machines
  · show Core.Sound (s.manager.policy.sample s.manager.core s.testbed).core
    cases s.manager.policy with
    | fuzzy c => exact hs.core.sample _ _
    | monitor c => exact hs.core.sample _ _

/-- **What each call of a paced run keeps**, the run keeps. -/
theorem runUntil_invariant {P : Station α → Prop}
    (hpacer : ∀ s pacer, P s → P { s with pacer := pacer })
    (hfeed : ∀ s items, P s → P (s.feed items)) (hsample : ∀ s, P s → P s.sample.station)
    (hcontrol : ∀ s stamp, P s → P (s.control stamp).station) {s : Station α} (hs : P s)
    (time : α) (feeds : List (List (Item α))) (stamp : Int) :
    P (s.runUntil time feeds stamp).station := by
  have hcalls : ∀ (calls : List (Call α)) (w : Walk α), P w.performed.station →
      P (calls.foldl (Walk.call feeds stamp) w).performed.station := by
    intro calls
    induction calls with
    | nil =>
      intro w hw
      exact hw
    | cons call calls ih =>
      intro w hw
      refine ih _ ?_
      cases call with
      | sample time => exact hsample _ (hfeed _ _ hw)
      | control time => exact hcontrol _ stamp hw
  unfold runUntil
  cases s.pacer with
  | none => exact hs
  | some pacer => exact hcalls _ _ (hpacer s _ hs)

end Station

/-! ## §6. Controls, and everything together. -/

section Ordered

variable [OrderedScalar α]

theorem Controller.keepsShares_decide (c : Controller α) {t : Testbed α} (ht : t.Keeps)
    (readings : List (TargetReading α)) :
    ∀ m ∈ (c.decide t readings).machines, m.KeepsShares := by
  rcases decide_cases c t readings with ⟨_, _, h⟩ | ⟨_, _, ⟨_, _, h⟩ | ⟨deltas, _, h⟩⟩
  · rw [h]
    exact ht
  · rw [h]
    exact ht
  · rw [h]
    exact keepsShares_actuate ht deltas

namespace Station

theorem Sound.control {s : Station α} (hs : s.Sound) (stamp : Int) :
    (s.control stamp).station.Sound := by
  refine ⟨?_, ?_, hs.policy.control _ _ _ _⟩
  · show Testbed.Keeps (s.manager.policy.control s.manager.core s.testbed s.storage stamp).testbed
    cases s.manager.policy with
    | fuzzy c => exact c.keepsShares_decide hs.machines s.manager.core.readings
    | monitor c => exact hs.machines
  · show Core.Sound (s.manager.policy.control s.manager.core s.testbed s.storage stamp).core
    cases s.manager.policy with
    | fuzzy c => exact hs.core.endInterval
    | monitor c => exact hs.core.endInterval

/-- **No action breaks the invariant.** -/
theorem Sound.perform {s : Station α} (hs : s.Sound) (stamp : Int) (a : Action α) :
    (s.perform stamp a).station.Sound := by
  cases a with
  -- The settings: what matters of them is checked before it is set.
  | bind => exact hs.withCore (hs.core.of_eq rfl rfl)
  | setTarget m value => exact hs.attempt fun core hcore => hs.withCore (hs.core.withTarget hcore)
  | clearTargets => exact hs.withCore hs.core.withoutTargets
  | setEstimator m kind =>
    refine hs.attempt fun e he => hs.withCore (hs.core.withEstimator m ?_)
    exact Estimator.sound_build (mapError_eq_ok_iff.mp he)
  | setSmoother m smoother => exact hs.withCore (hs.core.of_eq rfl rfl)
  | setSampling ms => exact hs.attempt fun i _ => hs.withCore (hs.core.of_eq rfl rfl)
  | setControl ms => exact hs.attempt fun i _ => hs.withCore (hs.core.of_eq rfl rfl)
  | setDataLog path => exact hs.withCore (hs.core.of_eq rfl rfl)
  | setResetsEachInterval on => exact hs.withCore (hs.core.of_eq rfl rfl)
  | setFactor factor =>
    refine hs.attempt fun p hp => ⟨hs.machines, hs.core, ?_⟩
    exact hs.policy.withFactor (mapError_eq_ok_iff.mp hp)
  | apply config => exact hs.apply config
  | observe o => exact ⟨hs.machines, hs.core, hs.policy⟩
  -- The testbed: no machine loses its shares.
  | feed items => exact hs.feed items
  | failMachine index r =>
    exact hs.withTestbed (Testbed.Keeps.withMachine hs.machines index fun m hm =>
      ⟨hm.reported, hm.inUnit⟩)
  | failOutput m => exact hs.withTestbed hs.machines
  | refuse index on =>
    exact hs.withTestbed (Testbed.Keeps.withMachine hs.machines index fun m hm =>
      ⟨hm.reported, hm.inUnit⟩)
  | setShare index r share => exact hs.setShare index r share
  -- The steps.
  | reset => exact hs.reset
  | sample => exact hs.sample
  | control => exact hs.control stamp
  | pace => exact ⟨hs.machines, hs.core, hs.policy⟩
  | runUntil time feeds =>
    exact runUntil_invariant (fun s _ hs => ⟨hs.machines, hs.core, hs.policy⟩)
      (fun s items hs => hs.feed items) (fun s hs => hs.sample)
      (fun s stamp hs => hs.control stamp) hs time feeds stamp

/-- **Every reachable station is sound.** -/
theorem Reachable.sound {s : Station α} (hs : s.Reachable) : s.Sound := by
  induction hs with
  | start hp ht storage => exact sound_start hp ht storage
  | perform _ stamp a ih => exact ih.perform stamp a
  | paced _ pacer ih => exact ⟨ih.machines, ih.core, ih.policy⟩

end Station

end Ordered

/-! ## §7. A trial. -/

/-- Whether an answer is that the action was done, as it can be decided. -/
def Reply.isDone : Reply α → Bool
  | .done => true
  | .controlled _ => false
  | .paced _ => false

/-- Whether an answer is that a control was applied, as it can be decided. -/
def Reply.isApplied : Reply α → Bool
  | .controlled .applied => true
  | _ => false

/-- Whether an answer is that a control failed, as it can be decided. -/
def Reply.isFailed : Reply α → Bool
  | .controlled (.failed _) => true
  | _ => false

namespace Performed

variable {p : Performed α}

omit [Scalar α] in
/-- An answer of which something was decided is there. -/
theorem exists_reply {test : Reply α → Bool} (h : p.result.toOption.map test = some true) :
    ∃ reply, p.result = .ok reply ∧ test reply = true := by
  obtain ⟨reply, hreply, htest⟩ := Option.map_eq_some_iff.mp h
  cases hresult : p.result with
  | error e =>
    rw [hresult] at hreply
    cases hreply
  | ok reply' =>
    rw [hresult] at hreply
    cases hreply
    exact ⟨reply, rfl, htest⟩

omit [Scalar α] in
theorem result_of_isDone (h : p.result.toOption.map Reply.isDone = some true) :
    p.result = .ok .done := by
  obtain ⟨reply, hresult, hdone⟩ := exists_reply h
  cases reply with
  | done => exact hresult
  | _ => cases hdone

omit [Scalar α] in
theorem result_of_isApplied (h : p.result.toOption.map Reply.isApplied = some true) :
    p.result = .ok (.controlled .applied) := by
  obtain ⟨reply, hresult, happlied⟩ := exists_reply h
  cases reply with
  | controlled outcome =>
    cases outcome with
    | applied => exact hresult
    | _ => cases happlied
  | _ => cases happlied

omit [Scalar α] in
theorem result_of_isFailed (h : p.result.toOption.map Reply.isFailed = some true) :
    ∃ cause, p.result = .ok (.controlled (.failed cause)) := by
  obtain ⟨reply, hresult, hfailed⟩ := exists_reply h
  cases reply with
  | controlled outcome =>
    cases outcome with
    | failed cause => exact ⟨cause, hresult⟩
    | _ => cases hfailed
  | _ => cases hfailed

end Performed

namespace Station

/-- A policy for trials: a fuzzy controller as it is created. -/
def untried : Policy Extended := .fuzzy ⟨0.9, surface, .zero, .const false, [], none⟩

theorem isNew_untried : untried.IsNew := by
  have hnew : Controller.new (0.9 : Extended)
      = .ok ⟨0.9, surface, .zero, .const false, [], none⟩ := by
    have hfactor : (0.0 : Extended) < 0.9 ∧ (0.9 : Extended) ≤ 1.0 := by norm_num
    unfold Controller.new ensureFactor
    rw [if_pos hfactor]
    rfl
  exact .fuzzy hnew

/-- A station for trials: one machine, and a time of one to respond in. -/
def trial : Station Extended :=
  (new (.fuzzy ⟨0.9, surface, .zero, .const false, [], none⟩)
    (.new [.new "vm" 1.0])).after [(0, .bind), (0, .setTarget .responseTime 1.0)]

/-- Half of each share is used, and a response takes a time. -/
def trialRun (time : Extended) : List (Int × Action Extended) :=
  [(0, .feed [.machine 0 .cpu 0.5, .machine 0 .memory 0.5, .output .responseTime time]),
    (0, .sample)]

theorem reachable_trial : trial.Reachable := by
  refine Reachable.after (.start isNew_untried ?_ .fresh) _
  intro m hm
  rw [List.mem_singleton.mp hm]
  exact Machine.keepsShares_new "vm" 1.0

/-- The trial after a reset and one sample. -/
def tried (time : Extended) : Station Extended :=
  (trial.perform 0 .reset).station.after (trialRun time)

theorem reachable_tried (time : Extended) : (tried time).Reachable :=
  (reachable_trial.perform 0 .reset).after (trialRun time)

end Station

end CapacityControl.Control
