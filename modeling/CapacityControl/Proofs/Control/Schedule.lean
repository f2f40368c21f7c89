/-
  CapacityControl.Proofs.Control.Schedule
  ───────────────────────────────────────
  THE SCHEDULE OF PACED CALLS.  A sample is made at every multiple of the sampling period and a
  control at every multiple of the control period, up to the last stop and in the order of time,
  the sample first where both meet (`Pacer.Schedule`).  The stops in between leave no trace in
  the calls, and what happens to a station are these calls and nothing else: before each sample
  the items for its time are pushed (`Station.runEach_schedule`).
-/
import CapacityControl.Proofs.Control.Pacing
import CapacityControl.Proofs.Control.Reachable

namespace CapacityControl.Control

open Extended (finite)

/-! ## §1. Calls and their times. -/

namespace Call

variable {α : Type}

/-- When a call is made. -/
def time : Call α → α
  | .sample t => t
  | .control t => t

/-- The time of a sample. -/
def sampled? : Call α → Option α
  | .sample t => some t
  | .control _ => none

/-- The time of a control. -/
def controlled? : Call α → Option α
  | .sample _ => none
  | .control t => some t

/-- The times of the samples among calls. -/
def samples (calls : List (Call α)) : List α := calls.filterMap sampled?

/-- The times of the controls among calls. -/
def controls (calls : List (Call α)) : List α := calls.filterMap controlled?

/-- **The order of calls**: one is made earlier, or it is the sample of the time at which the
other is the control. -/
def Before [Scalar α] (c d : Call α) : Prop :=
  c.time < d.time ∨ ∃ t, c = .sample t ∧ d = .control t

/-- A sample is not made later than a control that it comes before. -/
theorem Before.le {s t : Rat} (h : Before (.sample (finite s)) (.control (finite t))) : s ≤ t := by
  rcases h with hlt | ⟨_, hs, ht⟩
  · exact ((Extended.finite_lt s t).mp hlt).le
  · cases hs
    cases ht
    exact le_refl s

/-- A control is made earlier than a sample that it comes before. -/
theorem Before.lt {s t : Rat} (h : Before (.control (finite t)) (.sample (finite s))) : t < s := by
  rcases h with hlt | ⟨_, ht, _⟩
  · exact (Extended.finite_lt t s).mp hlt
  · cases ht

theorem samples_append (calls rest : List (Call α)) :
    samples (calls ++ rest) = samples calls ++ samples rest :=
  List.filterMap_append

theorem controls_append (calls rest : List (Call α)) :
    controls (calls ++ rest) = controls calls ++ controls rest :=
  List.filterMap_append

theorem mem_samples {calls : List (Call α)} {t : α} :
    t ∈ samples calls ↔ .sample t ∈ calls := by
  unfold samples
  rw [List.mem_filterMap]
  constructor
  · rintro ⟨c, hc, ht⟩
    cases c with
    | sample t' =>
      cases ht
      exact hc
    | control t' => cases ht
  · intro h
    exact ⟨_, h, rfl⟩

end Call

/-! ## §2. The times of a loop. -/

/-- The ends of so many periods, from the `a`-th on. -/
def periodEnds (T : Rat) (a count : Nat) : List Extended :=
  (List.range' a count).map fun k : Nat => finite ((k + 1) * T)

theorem periodEnds_of_lt (T : Rat) {a count : Nat} (h : a < count) :
    periodEnds T a (count - a)
      = finite ((a + 1) * T) :: periodEnds T (a + 1) (count - (a + 1)) := by
  have hcount : count - a = count - (a + 1) + 1 := by omega
  unfold periodEnds
  rw [hcount, List.range'_succ, List.map_cons]

theorem getElem?_periodEnds (T : Rat) {count k : Nat} (h : k < count) :
    (periodEnds T 0 count)[k]? = some (finite ((k + 1) * T)) := by
  unfold periodEnds
  rw [List.getElem?_map, List.getElem?_range' h, Nat.zero_add, Nat.one_mul]
  rfl

/-! The ends of periods, split into those that came before and those that come after. -/

section Split

variable {T : Rat} {count : Nat} {front back : List Extended}

theorem length_of_periodEnds (h : front ++ back = periodEnds T 0 count) :
    front.length + back.length = count := by
  have hlength := congrArg List.length h
  unfold periodEnds at hlength
  rwa [List.length_append, List.length_map, List.length_range'] at hlength

theorem mem_of_periodEnds (h : front ++ back = periodEnds T 0 count) {k : Nat}
    (hk : k < front.length) : finite ((k + 1) * T) ∈ front := by
  have hlength := length_of_periodEnds h
  have hget := getElem?_periodEnds T (by omega : k < count)
  rw [← h, List.getElem?_append_left hk] at hget
  exact List.mem_of_getElem? hget

theorem head?_of_periodEnds (h : front ++ back = periodEnds T 0 count)
    (hlt : front.length < count) : back.head? = some (finite ((front.length + 1) * T)) := by
  have hget := getElem?_periodEnds T hlt
  rwa [← h, List.getElem?_append_right (Nat.le_refl _), Nat.sub_self,
    ← List.head?_eq_getElem?] at hget

end Split

namespace Pacer

variable {Ts Tc u : Rat} {p q : Pacer Extended} {a b : Nat} {calls : List (Call Extended)}

section Times

variable (hTs : 0 < Ts) (hTc : 0 < Tc)

include hTs hTc

/-- **The times of a loop** are those of all periods that there are still to end. -/
theorem At.times (h : p.At Ts Tc a b) (hloop : Loop (finite u) p calls q) :
    Call.samples calls = periodEnds Ts a (⌊u / Ts⌋₊ - a)
      ∧ Call.controls calls = periodEnds Tc b (⌊u / Tc⌋₊ - b) := by
  induction hloop generalizing a b with
  | done hstop =>
    -- No period is left.
    obtain ⟨ha, hb⟩ := (h.lt_next_iff hTs hTc).mp hstop
    rw [Nat.sub_eq_zero_of_le ha, Nat.sub_eq_zero_of_le hb]
    exact ⟨rfl, rfl⟩
  | @turn p last calls hturn _ ih =>
    rw [Call.samples_append, Call.controls_append]
    rcases h.step hTs hTc hturn with ⟨ha, hdue, hat⟩ | ⟨ha, hb, hdue, hat⟩ | ⟨hb, hdue, hat⟩
    · obtain ⟨hsamples, hcontrols⟩ := ih hat
      rw [hdue, hsamples, hcontrols, periodEnds_of_lt Ts ha]
      exact ⟨rfl, rfl⟩
    · obtain ⟨hsamples, hcontrols⟩ := ih hat
      rw [hdue, hsamples, hcontrols, periodEnds_of_lt Ts ha, periodEnds_of_lt Tc hb]
      exact ⟨rfl, rfl⟩
    · obtain ⟨hsamples, hcontrols⟩ := ih hat
      rw [hdue, hsamples, hcontrols, periodEnds_of_lt Tc hb]
      exact ⟨rfl, rfl⟩

omit hTs hTc in
/-- The calls of one turn are in order, and all are made at its time. -/
theorem due_ordered (p : Pacer Extended) :
    p.due.Pairwise Call.Before ∧ ∀ c ∈ p.due, c.time = p.next := by
  unfold due
  cases p.sampling.isDue p.next <;> cases p.control.isDue p.next
  · exact ⟨.nil, fun c hc => absurd hc List.not_mem_nil⟩
  · exact ⟨List.pairwise_singleton _ _, by simp [Call.time]⟩
  · exact ⟨List.pairwise_singleton _ _, by simp [Call.time]⟩
  · exact ⟨List.pairwise_pair.mpr (Or.inr ⟨_, rfl, rfl⟩), by simp [Call.time]⟩

/-- **The calls of a loop are in order**, from the next one on. -/
theorem At.ordered (h : p.At Ts Tc a b) (hloop : Loop (finite u) p calls q) :
    calls.Pairwise Call.Before ∧ ∀ c ∈ calls, p.next ≤ c.time := by
  induction hloop generalizing a b with
  | done _ => exact ⟨.nil, fun c hc => absurd hc List.not_mem_nil⟩
  | @turn p last calls hturn _ ih =>
    have hmoved : ∃ a' b', p.advance.At Ts Tc a' b' := by
      rcases h.turn with ⟨_, _, hat⟩ | ⟨_, _, hat⟩ | ⟨_, _, hat⟩ <;> exact ⟨_, _, hat⟩
    obtain ⟨a', b', hat⟩ := hmoved
    obtain ⟨hdue, htime⟩ := p.due_ordered
    obtain ⟨hcalls, hlater⟩ := ih hat
    have hnext := h.next_lt_advance hTs hTc
    rw [hat.next] at hnext hlater
    have hafter : ∀ c ∈ calls, p.next < c.time := by
      intro c hc
      rw [h.next, Extended.finite_lt] at hnext
      rw [h.next]
      exact Extended.finite_lt_of_lt hnext (hlater c hc)
    refine ⟨List.pairwise_append.mpr ⟨hdue, hcalls, fun c hc d hd => ?_⟩, fun c hc => ?_⟩
    · left
      rw [htime c hc]
      exact hafter d hd
    · rcases List.mem_append.mp hc with hc | hc
      · rw [htime c hc, h.next, Extended.finite_le]
      · exact Extended.le_of_lt (hafter c hc)

/-! ## §3. The schedule. -/

/-- **The samples before a control** are those whose periods end no later than its own. -/
theorem samples_before_control (hsamples : Call.samples calls = periodEnds Ts 0 ⌊u / Ts⌋₊)
    (hcontrols : Call.controls calls = periodEnds Tc 0 ⌊u / Tc⌋₊)
    (hordered : calls.Pairwise Call.Before) {before after : List (Call Extended)} {t : Extended}
    (hcalls : calls = before ++ .control t :: after) :
    (Call.samples before).length
      = ⌊((Call.controls before).length + 1 : Rat) * Tc / Ts⌋₊ := by
  subst hcalls
  obtain ⟨_, hafter, hbefore⟩ := List.pairwise_append.mp hordered
  have hlater := (List.pairwise_cons.mp hafter).1
  have hsplit : Call.samples before ++ Call.samples after = periodEnds Ts 0 ⌊u / Ts⌋₊ :=
    (Call.samples_append before (.control t :: after)).symm.trans hsamples
  have hsplit' : Call.controls before ++ t :: Call.controls after = periodEnds Tc 0 ⌊u / Tc⌋₊ :=
    (Call.controls_append before (.control t :: after)).symm.trans hcontrols
  -- The control is made at the end of its period, which is not after the stop.
  have hcount : (Call.controls before).length < ⌊u / Tc⌋₊ := by
    have hlength := length_of_periodEnds hsplit'
    rw [List.length_cons] at hlength
    omega
  cases head?_of_periodEnds hsplit' hcount
  generalize (Call.controls before).length = j at *
  have hnonneg : (0 : Rat) ≤ (j + 1) * Tc / Ts := by positivity
  rw [eq_comm, Nat.floor_eq_iff hnonneg, le_div_iff₀ hTs, div_lt_iff₀ hTs]
  constructor
  · -- The last sample before the control is not later than the control.
    cases hn : (Call.samples before).length with
    | zero =>
      rw [Nat.cast_zero, zero_mul]
      positivity
    | succ k =>
      have hmem := Call.mem_samples.mp (mem_of_periodEnds hsplit (k := k) (by omega))
      rw [Nat.cast_succ]
      exact (hbefore _ hmem _ List.mem_cons_self).le
  · rcases Nat.lt_or_ge (Call.samples before).length ⌊u / Ts⌋₊ with hlt | hge
    · -- The next sample comes after the control.
      have hmem := List.mem_of_head? (head?_of_periodEnds hsplit hlt)
      exact (hlater _ (Call.mem_samples.mp hmem)).lt
    · -- There is no next sample: its period would end after the stop.
      have hnext := mt (period_le_iff hTs _).mp (Nat.not_lt.mpr hge)
      have hcontrol := (period_le_iff hTc j).mpr hcount
      linarith

end Times

/-- **The schedule up to a time**: a sample at the end of every period of sampling, a control at
the end of every period of controlling, in order; so between two controls there are the samples
that are due in the meantime. -/
structure Schedule (Ts Tc u : Rat) (calls : List (Call Extended)) : Prop where
  samples : Call.samples calls = (List.range ⌊u / Ts⌋₊).map fun k : Nat => finite ((k + 1) * Ts)
  controls : Call.controls calls = (List.range ⌊u / Tc⌋₊).map fun k : Nat => finite ((k + 1) * Tc)
  ordered : calls.Pairwise Call.Before
  between : ∀ before t after, calls = before ++ .control t :: after →
    (Call.samples before).length = ⌊((Call.controls before).length + 1 : Rat) * Tc / Ts⌋₊

/-- **A loop from the beginning** keeps to the schedule. -/
theorem At.schedule (h : p.At Ts Tc 0 0) (hTs : 0 < Ts) (hTc : 0 < Tc)
    (hloop : Loop (finite u) p calls q) : Schedule Ts Tc u calls := by
  obtain ⟨hsamples, hcontrols⟩ := h.times hTs hTc hloop
  obtain ⟨hordered, _⟩ := h.ordered hTs hTc hloop
  rw [Nat.sub_zero] at hsamples hcontrols
  refine ⟨?_, ?_, hordered, fun before t after hcalls =>
    samples_before_control hTs hTc hsamples hcontrols hordered hcalls⟩
  · rw [hsamples, periodEnds, ← List.range_eq_range']
  · rw [hcontrols, periodEnds, ← List.range_eq_range']

end Pacer

/-! ## §4. What happens to a station. -/

section Stations

variable {α : Type} [Scalar α]

/-- What a call is to a station: before a sample the items for its time are pushed. -/
def Call.actions (feed : α → List (Item α)) (stamp : Int) : Call α → List (Int × Action α)
  | .sample t => [(stamp, .feed (feed t)), (stamp, .sample)]
  | .control _ => [(stamp, .control)]

namespace Station

variable {s : Station α} (feed : α → List (Item α)) (stamp : Int)

omit [Scalar α] in
/-- The lists of items that runs until a time take, one for each sample. -/
theorem itemsAt_map {times : List α} {k : Nat} {t : α} (h : times[k]? = some t) :
    itemsAt (times.map feed) k = feed t := by
  have hk : k < times.length := (List.getElem?_eq_some_iff.mp h).1
  unfold itemsAt
  rw [List.length_map, Nat.mod_eq_of_lt hk, List.getElem?_map, h]
  rfl

/-- **The calls of a paced run** are the actions that they are to the station. -/
theorem Walk.after_calls {feeds : List (List (Item α))} (calls : List (Call α)) {w : Walk α}
    (hfeeds : ∀ k t, (Call.samples calls)[k]? = some t →
      itemsAt feeds (w.samples.length + k) = feed t) :
    (calls.foldl (Walk.call feeds stamp) w).samples = w.samples ++ Call.samples calls
      ∧ (calls.foldl (Walk.call feeds stamp) w).performed.station
        = w.performed.station.after (calls.flatMap (Call.actions feed stamp)) := by
  induction calls generalizing w with
  | nil => exact ⟨(List.append_nil _).symm, rfl⟩
  | cons call calls ih =>
    cases call with
    | sample t =>
      have hitems : itemsAt feeds w.samples.length = feed t := hfeeds 0 t rfl
      obtain ⟨hsamples, hstation⟩ := ih (w := w.call feeds stamp (.sample t)) fun k t' hk => by
        have hlength : (w.samples ++ [t]).length + k = w.samples.length + (k + 1) := by
          rw [List.length_append, List.length_singleton]
          omega
        show itemsAt feeds ((w.samples ++ [t]).length + k) = feed t'
        rw [hlength]
        exact hfeeds (k + 1) t' hk
      refine ⟨hsamples.trans (List.append_assoc _ _ _), hstation.trans ?_⟩
      show ((w.performed.station.feed (itemsAt feeds w.samples.length)).sample.station).after _ = _
      rw [hitems]
      rfl
    | control t =>
      obtain ⟨hsamples, hstation⟩ := ih (w := w.call feeds stamp (.control t)) fun k t' hk => by
        show itemsAt feeds ((w.samples ++ []).length + k) = feed t'
        rw [List.append_nil]
        exact hfeeds k t' hk
      refine ⟨hsamples.trans ?_, hstation⟩
      show (w.samples ++ []) ++ _ = _
      rw [List.append_nil]
      rfl

/-- The actions of calls do not look at the pacer, and leave it alone. -/
theorem after_withPacer (calls : List (Call α)) (s : Station α) (pacer : Option (Pacer α)) :
    after { s with pacer := pacer } (calls.flatMap (Call.actions feed stamp))
      = { s.after (calls.flatMap (Call.actions feed stamp)) with pacer := pacer } := by
  induction calls generalizing s with
  | nil => rfl
  | cons call calls ih =>
    cases call with
    | sample t => exact ih (s.feed (feed t)).sample.station
    | control t => exact ih (s.control stamp).station

/-- Runs until a time; before each sample the items for its time are pushed. -/
def runWith (s : Station α) (feed : α → List (Item α)) (stamp : Int) (stop : α) : Performed α :=
  let times := s.pacer.elim [] fun p => Call.samples (p.runUntil stop).1
  s.perform stamp (.runUntil stop (times.map feed))

theorem runWith_eq {p : Pacer α} (hp : s.pacer = some p) (stop : α) :
    (s.runWith feed stamp stop).result = .ok (.paced (Call.samples (p.runUntil stop).1))
      ∧ (s.runWith feed stamp stop).station
        = { s.after ((p.runUntil stop).1.flatMap (Call.actions feed stamp)) with
            pacer := some (p.runUntil stop).2 } := by
  have hfeeds : ∀ k t, (Call.samples (p.runUntil stop).1)[k]? = some t →
      itemsAt ((Call.samples (p.runUntil stop).1).map feed) (0 + k) = feed t := by
    intro k t hk
    rw [Nat.zero_add]
    exact itemsAt_map feed hk
  obtain ⟨hsamples, hstation⟩ := Walk.after_calls feed stamp (p.runUntil stop).1
    (w := ⟨[], { s with pacer := some (p.runUntil stop).2 }.changed⟩) hfeeds
  unfold runWith
  rw [hp]
  show (s.runUntil stop _ stamp).result = _ ∧ (s.runUntil stop _ stamp).station = _
  unfold runUntil
  rw [hp]
  exact ⟨congrArg (fun samples => Except.ok (Reply.paced samples)) hsamples,
    hstation.trans (after_withPacer feed stamp _ s _)⟩

/-- Runs until several times, one after the other. -/
def runEach (s : Station α) (feed : α → List (Item α)) (stamp : Int) (stops : List α) :
    Station α :=
  stops.foldl (fun s stop => (s.runWith feed stamp stop).station) s

/-- **Runs one after the other** make the calls that the pacer makes, and no others. -/
theorem runEach_eq {p : Pacer α} (hp : s.pacer = some p) (stops : List α) :
    s.runEach feed stamp stops
      = { s.after ((p.runEach stops).1.flatMap (Call.actions feed stamp)) with
          pacer := some (p.runEach stops).2 } := by
  induction stops generalizing s p with
  | nil =>
    cases s
    cases hp
    rfl
  | cons stop stops ih =>
    have hstation := (runWith_eq feed stamp hp stop).2
    show (s.runWith feed stamp stop).station.runEach feed stamp stops = _
    rw [hstation, ih rfl, after_withPacer]
    show _ = { s.after (((p.runUntil stop).1 ++ ((p.runUntil stop).2.runEach stops).1).flatMap _)
      with pacer := some ((p.runUntil stop).2.runEach stops).2 }
    rw [List.flatMap_append, after_append]

end Station

end Stations

namespace Station

/-- **The schedule of a paced station.**  Start a pacer with two positive periods and run it until
several times in any order, the last of which is `u`.  Every run ends.  Together their calls keep
to the schedule up to `u`, and are those of one run until `u`.  What happened to the station are
these calls, each sample right after the items for its time, whichever the other stops were. -/
theorem runEach_schedule {Ts Tc : Rat} (hTs : 0 < Ts) (hTc : 0 < Tc) {stops : List Rat} {u : Rat}
    (hmem : u ∈ stops) (hmax : ∀ stop ∈ stops, stop ≤ u) {s : Station Extended}
    (hperiods : s.manager.core.intervals = ⟨finite Ts, finite Tc⟩) :
    let pacer : Pacer Extended := .new s.manager.core.intervals
    let calls := (pacer.runUntil (finite u)).1
    (∀ (past : List Rat) (stop : Rat), let p := (pacer.runEach (past.map finite)).2
        ∃ last, p.Loop (finite stop) (p.runUntil (finite stop)).1 last
          ∧ (p.runUntil (finite stop)).2 = { last with now := finite stop })
      ∧ Pacer.Schedule Ts Tc u calls
      ∧ (pacer.runEach (stops.map finite)).1 = calls
      ∧ ∀ (feed : Extended → List (Item Extended)) (stamp : Int), ∃ last,
        (s.perform stamp .pace).station.runEach feed stamp (stops.map finite)
          = { s.after (calls.flatMap (Call.actions feed stamp)) with pacer := some last } := by
  intro pacer calls
  have hnew : pacer.At Ts Tc 0 0 := by
    show (Pacer.new s.manager.core.intervals).At Ts Tc 0 0
    rw [hperiods]
    exact Pacer.at_new Ts Tc
  obtain ⟨last, hloop, _⟩ := hnew.loop_runUntil hTs hTc u
  obtain ⟨last', hloop'⟩ := hnew.loop_runEach hTs hTc hmem hmax
  have hcalls : (pacer.runEach (stops.map finite)).1 = calls := (hloop'.unique hloop).1
  refine ⟨fun past stop => ?_, ?_, hcalls, fun feed stamp => ⟨(pacer.runEach (stops.map finite)).2, ?_⟩⟩
  · obtain ⟨a, b, hat⟩ := hnew.runEach hTs hTc past
    exact hat.loop_runUntil hTs hTc stop
  · exact hnew.schedule hTs hTc hloop
  · have hpaced := runEach_eq feed stamp (s := (s.perform stamp .pace).station) (p := pacer) rfl
      (stops.map finite)
    have hstart := after_withPacer feed stamp calls s (some pacer)
    rw [hcalls] at hpaced
    change (s.perform stamp .pace).station.after _ = _ at hstart
    rw [hpaced, hstart]

/-- A station for trials that samples every two seconds and controls every three. -/
def pacedTrial : Station Extended :=
  trial.after [(0, .setSampling 2000.0), (0, .setControl 3000.0)]

/-- Up to seven seconds there are three samples and two controls; the last of both meet.  The run
back to six and the one to a negative time make no calls. -/
theorem runEach_schedule_trial :
    let calls := ((Pacer.new pacedTrial.manager.core.intervals).runUntil (finite 7)).1
    pacedTrial.manager.core.intervals = ⟨finite 2, finite 3⟩
      ∧ Pacer.Schedule 2 3 7 calls
      ∧ Call.samples calls = [2.0, 4.0, 6.0] ∧ Call.controls calls = [3.0, 6.0]
      ∧ ∀ feed stamp, ∃ last,
        (pacedTrial.perform stamp .pace).station.runEach feed stamp
            [finite 4, finite (-1), finite 7, finite 6]
          = { pacedTrial.after (calls.flatMap (Call.actions feed stamp)) with
              pacer := some last } := by
  intro calls
  have hsampling : pacedTrial.manager.core.intervals.sampling = finite 2 := by decide +kernel
  have hcontrol : pacedTrial.manager.core.intervals.control = finite 3 := by decide +kernel
  have hperiods : pacedTrial.manager.core.intervals = ⟨finite 2, finite 3⟩ := by
    rw [← hsampling, ← hcontrol]
  have hmax : ∀ stop ∈ [4, -1, 7, 6], stop ≤ (7 : Rat) := by
    decide +kernel
  obtain ⟨_, hschedule, _, hstation⟩ := runEach_schedule (by decide : (0 : Rat) < 2)
    (by decide : (0 : Rat) < 3) (by simp : (7 : Rat) ∈ [4, -1, 7, 6]) hmax hperiods
  exact ⟨hperiods, hschedule, by decide +kernel, by decide +kernel, hstation⟩

end Station

end CapacityControl.Control
