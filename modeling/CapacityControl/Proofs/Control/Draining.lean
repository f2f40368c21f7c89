/-
  CapacityControl.Proofs.Control.Draining
  ───────────────────────────────────────
  WHERE READINGS GO.  A reading waits in its sensor until a poll that works drains it, with
  all that came before it.  In a run the readings of a sensor leave it in the order in which
  they came (`Station.drained_append_held`), and a sample drains a reading exactly if it is
  the first sample after that reading whose poll of the sensor works (`Station.drains_iff`).
-/
import CapacityControl.Proofs.Control.Wiring

namespace CapacityControl.Control

variable {α : Type} [Scalar α]

/-! ## §1. Polls. -/

/-- The numbers among readings. -/
def numbers (readings : List (Reading α)) : List α :=
  (readings.filter (Scalar.isFinite ·.value)).map (·.value)

theorem numbers_append (first second : List (Reading α)) :
    numbers (first ++ second) = numbers first ++ numbers second := by
  simp [numbers]

namespace Sensor

/-- The readings that the next poll drains, numbers or not. -/
def polled (s : Sensor α) : List (Reading α) :=
  match s.sense with
  | (.error _, _) => []
  | (.ok (), s) => s.drain.1

omit [Scalar α] in
/-- **A poll that works** drains all that is held. -/
theorem polled_of_works {s : Sensor α} (h : s.failsNext = false) : s.polled = s.held := by
  rw [polled, sense_of_works h]
  rfl

omit [Scalar α] in
/-- A poll that fails drains nothing. -/
theorem polled_of_fails {s : Sensor α} (h : s.failsNext = true) : s.polled = [] := by
  rw [polled, sense_of_fails h]

/-- Reading a sensor yields the numbers of the poll, with their labels. -/
theorem readings_read (s : Sensor α) :
    s.read.1.readings = s.polled.filter (Scalar.isFinite ·.value) := by
  cases h : s.failsNext with
  | false =>
    rw [read_of_works h, polled_of_works h]
    rfl
  | true =>
    rw [read_of_fails h, polled_of_fails h]
    rfl

theorem values_read (s : Sensor α) : s.read.1.values = numbers s.polled := by
  rw [Poll.values, readings_read, numbers]

/-- What is drained is no longer held, and all else is. -/
theorem polled_append_held (s : Sensor α) : s.polled ++ s.read.2.held = s.held := by
  rw [← s.held_sense]
  unfold polled read
  obtain ⟨result, after⟩ := s.sense
  cases result with
  | error fault => rfl
  | ok => exact after.drain_append_held

end Sensor

/-! ## §2. Readings that are pushed. -/

/-- The source that an item is for. -/
def Item.source : Item α → Source
  | machine index r _ => .machine index r
  | output m _ => .output m

/-- The reading that an item brings. -/
def Item.reading : Item α → Reading α
  | machine _ r value => ⟨r.name, value⟩
  | output m value => ⟨m.name, value⟩

namespace Testbed

/-- The testbed with one sensor changed. -/
def changing (t : Testbed α) (source : Source) (f : Sensor α → Sensor α) : Testbed α :=
  match source with
  | .machine index r => t.withMachine index (·.withSensor r f)
  | .output m => t.withOutput m f

omit [Scalar α] in
/-- **Changing a sensor** changes no other. -/
theorem sensor_changing (t : Testbed α) (changed : Source) (f : Sensor α → Sensor α)
    {source : Source} (h : t.Has source) :
    (t.changing changed f).sensor source
      = if source = changed then f (t.sensor source) else t.sensor source := by
  cases source with
  | output m =>
    cases changed with
    | machine index r => rfl
    | output k => simp [changing, withOutput, sensor, PerMetric.get_modify]
  | machine index r =>
    cases changed with
    | output k => rfl
    | machine index' r' =>
      have hin : index < t.machines.length := h
      by_cases hindex : index = index'
      · subst hindex
        simp [changing, withMachine, sensor, hin, Machine.withSensor, PerResource.get_modify]
      · have hother : index' ≠ index := fun heq => hindex heq.symm
        simp [changing, withMachine, sensor, hin, hindex, hother]

omit [Scalar α] in
theorem has_changing (t : Testbed α) (changed : Source) (f : Sensor α → Sensor α)
    (source : Source) : (t.changing changed f).Has source ↔ t.Has source := by
  cases source with
  | output m => exact Iff.rfl
  | machine index r =>
    cases changed with
    | output k => exact Iff.rfl
    | machine index' r' =>
      show index < (t.machines.modify index' _).length ↔ index < t.machines.length
      rw [List.length_modify]

omit [Scalar α] in
theorem push_eq (t : Testbed α) (item : Item α) :
    Station.push t item = t.changing item.source (·.push item.reading) := by
  cases item with
  | machine index r value => rfl
  | output m value => rfl

/-- The readings of one source among items. -/
def readingsFor (source : Source) (items : List (Item α)) : List (Reading α) :=
  (items.filter fun item => source = item.source).map Item.reading

omit [Scalar α] in
/-- **Pushed readings** are held after those that were held before. -/
theorem held_feed {t : Testbed α} {source : Source} (h : t.Has source) (items : List (Item α)) :
    ((items.foldl Station.push t).sensor source).held
      = (t.sensor source).held ++ readingsFor source items := by
  induction items generalizing t with
  | nil => simp [readingsFor]
  | cons item items ih =>
    rw [List.foldl_cons, push_eq, ih ((t.has_changing _ _ source).mpr h),
      sensor_changing t _ _ h]
    by_cases hsource : source = item.source
    · simp [readingsFor, hsource, Sensor.held_push]
    · simp [readingsFor, hsource]

end Testbed

/-! ## §3. Runs. -/

namespace Station

/-- The readings that a source holds. -/
def held (s : Station α) (source : Source) : List (Reading α) := (s.testbed.sensor source).held

/-- The next poll of a source works. -/
def Polls (s : Station α) (source : Source) : Prop := (s.testbed.sensor source).failsNext = false

end Station

/-- The readings that an action pushes to a source. -/
def Action.pushed (source : Source) : Action α → List (Reading α)
  | .feed items => Testbed.readingsFor source items
  | _ => []

namespace Station

/-- The readings that an action drains from a source that is read. -/
def drainedBy (s : Station α) (source : Source) : Action α → List (Reading α)
  | .sample => (s.testbed.sensor source).polled
  | _ => []

/-- **The readings that a run drains** from a source that is read, in order. -/
def drained (s : Station α) (source : Source) : List (Int × Action α) → List (Reading α)
  | [] => []
  | (stamp, a) :: run => s.drainedBy source a ++ drained (s.perform stamp a).station source run

/-- **The readings that arrive at a source**, in order: those held at the start, and those pushed
in the run. -/
def arrived (s : Station α) (source : Source) (run : List (Int × Action α)) : List (Reading α) :=
  s.held source ++ run.flatMap fun x => x.2.pushed source

theorem drained_concat (s : Station α) (source : Source) (run : List (Int × Action α))
    (x : Int × Action α) :
    s.drained source (run ++ [x]) = s.drained source run ++ (s.after run).drainedBy source x.2 := by
  induction run generalizing s with
  | nil => exact List.append_nil _
  | cons y run ih =>
    obtain ⟨stamp, a⟩ := y
    rw [List.cons_append, drained, drained, ih, List.append_assoc]
    rfl

omit [Scalar α] in
theorem arrived_concat (s : Station α) (source : Source) (run : List (Int × Action α))
    (x : Int × Action α) :
    s.arrived source (run ++ [x]) = s.arrived source run ++ x.2.pushed source := by
  simp [arrived]

variable {s start : Station α} {source : Source} {run : List (Int × Action α)}

/-- **No reading is lost or doubled** by an operation: what was held or is pushed is drained now
or held on. -/
theorem drainedBy_append_held (hs : s.Wired) (h : s.Reads source) (stamp : Int) {a : Action α}
    (ha : a.isOperation = true) :
    s.drainedBy source a ++ (s.perform stamp a).station.held source
      = s.held source ++ a.pushed source := by
  have hfails : ∀ changed, ((s.testbed.changing changed Sensor.failNext).sensor source).held
      = s.held source := by
    intro changed
    rw [Testbed.sensor_changing _ _ _ h.has]
    split
    · exact Sensor.held_failNext _
    · rfl
  cases a with
  | feed items => exact Testbed.held_feed h.has items
  | failMachine index r =>
    exact (hfails (.machine index r)).trans (List.append_nil _).symm
  | failOutput m => exact (hfails (.output m)).trans (List.append_nil _).symm
  | refuse index on =>
    -- Refusing changes a machine, but none of its sensors.
    have hsensors : (s.testbed.withMachine index fun m => { m with refuses := on }).machines.map
        (·.sensors) = s.testbed.machines.map (·.sensors) := by
      show (s.testbed.machines.modify index _).map _ = _
      apply List.ext_getElem?
      intro i
      rw [List.getElem?_map, List.getElem?_modify, List.getElem?_map]
      split <;> simp [Function.comp_def]
    have hsensor := Testbed.sensor_congr hsensors rfl source
    show ((Testbed.withMachine _ _ _).sensor source).held = _ ++ []
    rw [hsensor, List.append_nil]
    rfl
  | sample =>
    have hsensor := s.manager.policy.sensor_sample s.manager.core s.testbed (hs.reads h)
    show _ ++ ((s.manager.policy.sample _ _).testbed.sensor source).held = _ ++ []
    rw [hsensor, List.append_nil]
    exact Sensor.polled_append_held _
  | control =>
    have hsensor := s.manager.policy.sensor_control s.manager.core s.testbed s.storage stamp source
    show ((s.manager.policy.control _ _ _ _).testbed.sensor source).held = _ ++ []
    rw [hsensor, List.append_nil]
    rfl
  | _ => cases ha

/-- **The readings of a source leave it in the order in which they came**: those drained, followed
by those still held, are all that arrived. -/
theorem drained_append_held (hstart : start.Wired) (h : start.Reads source)
    (hrun : ∀ x ∈ run, x.2.isOperation = true) :
    start.drained source run ++ (start.after run).held source = start.arrived source run := by
  induction run using List.reverseRecOn with
  | nil => simp [drained, arrived, after]
  | append_singleton run x ih =>
    rw [List.forall_mem_append, List.forall_mem_singleton] at hrun
    -- The source is still read after `run`, so the last action obeys the law as well.
    have hstays := start.stays_after hrun.1
    calc start.drained source (run ++ [x]) ++ (start.after (run ++ [x])).held source
        = start.drained source run ++ ((start.after run).drainedBy source x.2
            ++ ((start.after run).perform x.1 x.2).station.held source) := by
          rw [drained_concat, after_concat, List.append_assoc]
      _ = start.drained source run ++ ((start.after run).held source ++ x.2.pushed source) := by
          rw [drainedBy_append_held (hstays.wired hstart) (hstays.reads.mpr h) x.1 hrun.2]
      _ = start.arrived source (run ++ [x]) := by
          rw [← List.append_assoc, ih hrun.1, arrived_concat]

/-! ## §4. The sample that drains a reading. -/

/-- **The `n`-th reading was polled**: a sample in the run, after the reading had arrived, met a
sensor whose poll works. -/
def Polled (start : Station α) (source : Source) (run : List (Int × Action α)) (n : Nat) : Prop :=
  ∃ before stamp later, run = before ++ (stamp, .sample) :: later
    ∧ n < (start.arrived source before).length ∧ (start.after before).Polls source

/-- **A sample after a run drains the `n`-th reading** that arrived. -/
def Drains (start : Station α) (source : Source) (run : List (Int × Action α)) (n : Nat) : Prop :=
  (start.drained source run).length ≤ n
    ∧ n < (start.drained source run ++ (start.after run).drainedBy source .sample).length

theorem polled_concat (start : Station α) (source : Source) (run : List (Int × Action α))
    (x : Int × Action α) (n : Nat) :
    start.Polled source (run ++ [x]) n
      ↔ (x.2 = .sample ∧ n < (start.arrived source run).length
          ∧ (start.after run).Polls source) ∨ start.Polled source run n :=
  exists_sample_concat

/-- **The readings drained** are those that were polled. -/
theorem lt_length_drained_iff (hstart : start.Wired) (h : start.Reads source)
    (hrun : ∀ x ∈ run, x.2.isOperation = true) (n : Nat) :
    n < (start.drained source run).length ↔ start.Polled source run n := by
  induction run using List.reverseRecOn with
  | nil =>
    constructor
    · intro hn
      cases hn
    · rintro ⟨before, stamp, later, hnil, _⟩
      simp at hnil
  | append_singleton run x ih =>
    rw [List.forall_mem_append, List.forall_mem_singleton] at hrun
    have hcount := congrArg List.length (drained_append_held hstart h hrun.1)
    rw [List.length_append] at hcount
    rw [drained_concat, polled_concat, ← ih hrun.1, List.length_append]
    by_cases hsample : x.2 = .sample
    · rw [hsample]
      show n < _ + (Sensor.polled _).length ↔ _
      by_cases hpolls : (start.after run).Polls source
      · -- All that has arrived is drained.
        rw [Sensor.polled_of_works hpolls]
        simp only [hpolls, true_and, and_true]
        change _ + ((start.after run).testbed.sensor source).held.length = _ at hcount
        omega
      · -- Nothing is drained, and this sample polls no reading.
        rw [Sensor.polled_of_fails (Bool.not_eq_false _ ▸ hpolls)]
        simp [hpolls]
    · have hnone : (start.after run).drainedBy source x.2 = [] := by
        unfold drainedBy
        split
        · next heq => exact absurd heq hsample
        · rfl
      simp [hnone, hsample]

/-- **A reading is drained by the first sample after it whose poll works**, and by no other. -/
theorem drains_iff (hstart : start.Wired) (h : start.Reads source)
    (hrun : ∀ x ∈ run, x.2.isOperation = true) (n : Nat) :
    start.Drains source run n
      ↔ n < (start.arrived source run).length ∧ (start.after run).Polls source
        ∧ ¬ start.Polled source run n := by
  -- One more sample drains what is polled in the run that it ends, and was not before.
  have hsampled : ∀ x ∈ run ++ [((0 : Int), (.sample : Action α))], x.2.isOperation = true :=
    List.forall_mem_append.mpr ⟨hrun, by simp [Action.isOperation]⟩
  have hnext := lt_length_drained_iff hstart h hsampled n
  rw [drained_concat, polled_concat] at hnext
  unfold Drains
  rw [hnext, ← lt_length_drained_iff hstart h hrun n]
  simp only [true_and]
  constructor
  · rintro ⟨hfrom, hpolled | hbefore⟩
    · exact ⟨hpolled.1, hpolled.2, by omega⟩
    · omega
  · rintro ⟨harrived, hpolls, hbefore⟩
    exact ⟨by omega, Or.inl ⟨harrived, hpolls⟩⟩

end Station

end CapacityControl.Control
