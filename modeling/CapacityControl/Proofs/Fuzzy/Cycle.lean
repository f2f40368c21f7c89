/-
  CapacityControl.Proofs.Fuzzy.Cycle
  ──────────────────────────────────
  ONE CYCLE AFTER ANOTHER.  An engine is kept and changed in place: an inference clears the
  outputs, appends the activations of one rule after the other, reads the values off, and may
  stop with an error before (`Engine.inference`).  In place it comes to what
  `Engine.process` says, and where it stops it has changed nothing (`after_inference`), so what
  an earlier cycle left in the outputs has no influence on the next (`Alike.process_eq`).  A
  restart unsets the inputs, and from then on an input has the value that it was given last
  (`Holds.foldl_perform`).  Together: `inference_determined`.
-/
import CapacityControl.Proofs.Fuzzy.Bounds
import CapacityControl.Scalar.Binary64
import Mathlib.Data.List.Nodup

namespace CapacityControl.Fuzzy

variable {α : Type} [Scalar α]

/-! ## §1. Inference in place. -/

/-- What changes an engine in place and may stop with an error.  What it changed before it
stopped stays changed. -/
abbrev InPlace (α : Type) := ExceptT (Error α) (StateM (Engine α))

namespace Engine

/-- Stops if the engine lacks something, or if an input is no number. -/
def ensureReady : InPlace α Unit := do
  let e ← get
  match e.missing? with
  | some m => throw (.notReady m)
  | none =>
    match e.inputs.find? (!·.isSet) with
    | some v => throw (.notFiniteInput v.name v.value)
    | none => pure ()

/-- Appends an activation to the output at an index, if there is one.  For a rule of a sound engine
there is (`Grounds.var_lt`). -/
def activate (index : Nat) (a : Activation α) : InPlace α Unit :=
  modify fun e => { e with outputs := e.outputs.modify index (·.activated [a]) }

/-- Appends the activations of a rule of the block, if its degree is positive. -/
def fire (b : RuleBlock α) (r : Rule α) : InPlace α Unit := do
  let degree := b.degreeOf (← get).inputs r
  if 0.0 < degree then
    r.consequents.forM fun c => activate c.var ⟨c.term, degree, b.implication⟩

/-- **One inference in place.** -/
def inference : InPlace α Unit := do
  ensureReady
  modify fun e => { e with outputs := e.outputs.map Output.cleared }
  (← get).blocks.forM fun b => b.rules.forM (fire b)
  modify fun e => { e with outputs := e.outputs.map Output.defuzzified }

/-- What a change in place answers, and the engine that it leaves behind. -/
def after (p : InPlace α Unit) (e : Engine α) : Except (Error α) Unit × Engine α := p.run.run e

/-! ## §2. What it comes to. -/

section Delivery

variable {inputs : List (Input α)}

omit [Scalar α] in
/-- What follows a change that went through begins with the engine that this left behind. -/
theorem after_bind {p : InPlace α Unit} {q : Unit → InPlace α Unit} {e e' : Engine α}
    (h : after p e = (.ok (), e')) : after (p >>= q) e = after (q ()) e' := by
  unfold after at *
  rw [ExceptT.run_bind, StateT.run_bind, h]
  rfl

/-- A change in place that goes through and delivers to the outputs the activations of some
firing rules, whatever the outputs hold already. -/
def Delivers (inputs : List (Input α)) (p : InPlace α Unit) (fs : List (Firing α)) : Prop :=
  ∀ e, e.inputs = inputs → after p e = (.ok (), { e with outputs := deliver e.outputs fs })

omit [Scalar α] in
theorem delivers_pure : Delivers inputs (pure ()) [] := by
  intro e _
  rw [deliver_nil]
  rfl

omit [Scalar α] in
/-- **A loop** delivers what its turns deliver, one after the other. -/
theorem Delivers.forM {β : Type} {p : β → InPlace α Unit} {fs : β → List (Firing α)}
    (h : ∀ b, Delivers inputs (p b) (fs b)) (l : List β) :
    Delivers inputs (l.forM p) (l.flatMap fs) := by
  induction l with
  | nil => exact delivers_pure
  | cons b l ih =>
    intro e he
    have hrest := ih { e with outputs := deliver e.outputs (fs b) } he
    rw [deliver_append] at hrest
    exact (after_bind (h b e he)).trans hrest

omit [Scalar α] in
theorem delivers_activate (degree : α) (implication : TNorm) (c : Proposition) :
    Delivers inputs (activate c.var ⟨c.term, degree, implication⟩)
      [⟨degree, implication, [c]⟩] := by
  intro e _
  have hdeliver : e.outputs.modify c.var (·.activated [⟨c.term, degree, implication⟩])
      = deliver e.outputs [⟨degree, implication, [c]⟩] := by
    refine List.ext_getElem? fun i => ?_
    unfold deliver
    rw [List.getElem?_modify, List.getElem?_mapIdx]
    by_cases heq : c.var = i
    · simp [activationsOf, heq]
    · simp [activationsOf, heq, Output.activated]
  rw [← hdeliver]
  rfl

/-- A rule delivers its consequents if it fires, and nothing if it does not. -/
theorem delivers_fire (b : RuleBlock α) (r : Rule α) :
    Delivers inputs (fire b r) (b.firing? inputs r).toList := by
  rintro e rfl
  show after (if 0.0 < b.degreeOf e.inputs r then _ else _) e = _
  unfold RuleBlock.firing?
  by_cases hpos : 0.0 < b.degreeOf e.inputs r
  · rw [if_pos hpos, if_pos hpos]
    refine (Delivers.forM (delivers_activate _ _) r.consequents e rfl).trans ?_
    rw [deliver_each]
    rfl
  · rw [if_neg hpos, if_neg hpos]
    exact delivers_pure e rfl

theorem delivers_blocks (blocks : List (RuleBlock α)) :
    Delivers inputs (blocks.forM fun b => b.rules.forM (fire b))
      (blocks.flatMap (·.firings inputs)) := by
  refine Delivers.forM (fun b => ?_) blocks
  rw [b.firings_eq, List.filterMap_eq_flatMap_toList]
  exact Delivers.forM (delivers_fire b) b.rules

end Delivery

/-- **In place an inference comes to what it is said to come to**: on success it leaves the
inferred engine, and where it stops it leaves the engine as it was. -/
theorem after_inference (e : Engine α) :
    after inference e = (e.process.map fun _ => (), e.perform .process) := by
  have hchecked : ∀ q : Unit → InPlace α Unit, after (ensureReady >>= q) e
      = after ((match e.missing? with
        | some m => throw (.notReady m)
        | none =>
          match e.inputs.find? (!·.isSet) with
          | some v => throw (.notFiniteInput v.name v.value)
          | none => pure ()) >>= q) e := fun _ => rfl
  unfold inference perform attempt process
  rw [hchecked]
  cases e.missing? with
  | some m => rfl
  | none =>
    cases e.inputs.find? (!·.isSet) with
    | some v => rfl
    | none =>
      -- Nothing was changed before this, and nothing can stop after it.
      have hfilled := delivers_blocks e.blocks { e with outputs := e.outputs.map Output.cleared } rfl
      refine (after_bind hfilled).trans ?_
      rw [← map_deliver_cleared]
      rfl

/-! ## §3. What an inference depends on. -/

omit [Scalar α] in
theorem missing?_eq_none_iff (e : Engine α) :
    e.missing? = none ↔ e.inputs ≠ [] ∧ e.outputs ≠ [] ∧ ∃ b ∈ e.blocks, b.rules ≠ [] := by
  unfold missing?
  split_ifs with hinputs houtputs hrules
  · simp_all
  · simp_all
  · simp_all
  · simp_all

/-- **An inference succeeds** exactly if the engine lacks nothing and all inputs are numbers. -/
theorem process_ok_iff (e : Engine α) :
    (∃ e', e.process = .ok e') ↔ e.missing? = none ∧ ∀ v ∈ e.inputs, v.isSet = true := by
  unfold process
  cases e.missing? with
  | some m => simp
  | none =>
    cases hunset : e.inputs.find? (!·.isSet) with
    | some v =>
      have hv := List.find?_some hunset
      have hmem := List.mem_of_find?_eq_some hunset
      constructor
      · rintro ⟨_, h⟩
        cases h
      · rintro ⟨_, h⟩
        simp [h v hmem] at hv
    | none =>
      refine ⟨fun _ => ⟨rfl, fun v hv => ?_⟩, fun _ => ⟨_, rfl⟩⟩
      simpa using List.find?_eq_none.mp hunset v hv

/-- Engines that differ in nothing but their names and in what earlier inferences left in their
outputs. -/
structure Alike (e f : Engine α) : Prop where
  inputs : e.inputs = f.inputs
  outputs : e.outputs.map Output.cleared = f.outputs.map Output.cleared
  blocks : e.blocks = f.blocks

/-- **Engines that are alike come to the same**, be it an error or an inferred engine. -/
theorem Alike.process_eq {e f : Engine α} (h : e.Alike f) :
    f.process = e.process.map fun e' => { e' with name := f.name } := by
  have hempty : e.outputs.isEmpty = f.outputs.isEmpty := by
    rw [← List.isEmpty_map (f := Output.cleared), h.outputs, List.isEmpty_map]
  have hmissing : f.missing? = e.missing? := by
    unfold missing?
    rw [h.inputs, hempty, h.blocks]
  have hinferred : f.inferred = e.inferred := by
    rw [← map_deliver_cleared, ← map_deliver_cleared, h.outputs]
    unfold firings
    rw [h.inputs, h.blocks]
  unfold process
  rw [hmissing, hinferred, ← h.inputs]
  cases e.missing? with
  | some m => rfl
  | none =>
    cases e.inputs.find? (!·.isSet) with
    | some v => rfl
    | none =>
      show Except.ok _ = Except.ok _
      rw [h.blocks]

/-- What an inference leaves behind is like what it found. -/
theorem alike_of_process {e e' : Engine α} (h : e.process = .ok e') : e.Alike e' := by
  cases process_ok h
  exact ⟨rfl, (map_inferred Output.cleared fun _ _ _ => rfl).symm, rfl⟩

/-- A second inference changes nothing. -/
theorem process_of_process {e e' : Engine α} (h : e.process = .ok e') : e'.process = .ok e' := by
  rw [(alike_of_process h).process_eq, h]
  rfl

/-! ## §4. Restarts. -/

/-- The value that an input of that name has been set to, after one more operation. -/
def setting (name : String) (before : Option α) : Operation α → Option α
  | .setInput n value => if n = name then some value else before
  | .restart => none
  | .addInput _ | .addOutput _ | .addBlock _ | .process => before

/-- **The value that an input of that name was set to last**, if it was set at all since the
last restart among the operations. -/
def lastSet? (name : String) (ops : List (Operation α)) : Option α := ops.foldl (setting name) none

/-- The first input of that name stands at an index and has a value. -/
structure Holds (e : Engine α) (i : Nat) (name : String) (value : α) : Prop where
  first : e.inputs.findIdx? (·.name == name) = some i
  value : e.inputs[i]?.map (·.value) = some value

section Holds

variable {e e' : Engine α} {i : Nat} {name : String}

omit [Scalar α] in
theorem findIdx?_of_names (h : e'.inputs.map (·.name) = e.inputs.map (·.name)) :
    e'.inputs.findIdx? (·.name == name) = e.inputs.findIdx? (·.name == name) := by
  have hmap : ∀ l : List (Input α),
      (l.map (·.name)).findIdx? (· == name) = l.findIdx? (·.name == name) := fun _ =>
    List.findIdx?_map
  rw [← hmap, ← hmap, h]

omit [Scalar α] in
theorem Holds.of_inputs {value : α} (h : e.Holds i name value) (hinputs : e'.inputs = e.inputs) :
    e'.Holds i name value :=
  ⟨hinputs ▸ h.first, hinputs ▸ h.value⟩

omit [Scalar α] in
/-- Another input behind the others changes nothing. -/
theorem Holds.addInput {value : α} (h : e.Holds i name value) {v : Input α}
    (hadd : e.addInput v = .ok e') : e'.Holds i name value := by
  obtain ⟨_, rfl⟩ := (addInput_ok_iff v).mp hadd
  obtain ⟨hi, _⟩ := List.findIdx?_eq_some_iff_getElem.mp h.first
  constructor
  · show (e.inputs ++ [v]).findIdx? (·.name == name) = some i
    rw [List.findIdx?_append, h.first]
    rfl
  · show (e.inputs ++ [v])[i]?.map (·.value) = some value
    rw [List.getElem?_append_left hi]
    exact h.value

omit [Scalar α] in
/-- An input that is set has the value that it was set to; the others keep theirs. -/
theorem Holds.setInput {before : α} (h : e.Holds i name before) (n : String) (value : α)
    (hset : e.setInput n value = .ok e') :
    e'.Holds i name (if n = name then value else before) := by
  refine ⟨(findIdx?_of_names (map_setInput (·.name) (fun _ _ => rfl) hset).1).trans h.first, ?_⟩
  unfold Engine.setInput at hset
  by_cases hn : n = name
  · subst hn
    rw [h.first] at hset
    cases hset
    obtain ⟨hi, _⟩ := List.findIdx?_eq_some_iff_getElem.mp h.first
    simp [hi]
  · rw [if_neg hn]
    cases hindex : e.inputs.findIdx? (·.name == n) with
    | none =>
      rw [hindex] at hset
      cases hset
    | some j =>
      rw [hindex] at hset
      cases hset
      obtain ⟨_, hi, _⟩ := List.findIdx?_eq_some_iff_getElem.mp h.first
      obtain ⟨_, hj, _⟩ := List.findIdx?_eq_some_iff_getElem.mp hindex
      have hij : j ≠ i := by
        rintro rfl
        exact hn ((beq_iff_eq.mp hj).symm.trans (beq_iff_eq.mp hi))
      show (e.inputs.modify j _)[i]?.map (·.value) = some before
      rw [List.getElem?_modify]
      simpa [hij] using h.value

/-- A restart unsets every input. -/
theorem Holds.restart {value : α} (h : e.Holds i name value) :
    e.restart.Holds i name Scalar.nan := by
  obtain ⟨hi, _⟩ := List.findIdx?_eq_some_iff_getElem.mp h.first
  constructor
  · refine (findIdx?_of_names ?_).trans h.first
    simp [Engine.restart, Function.comp_def]
  · simp [Engine.restart, hi]

/-- **One operation** sets the input, unsets it, or leaves it alone. -/
theorem Holds.perform {before : Option α} (h : e.Holds i name (before.getD Scalar.nan))
    (op : Operation α) : (e.perform op).Holds i name ((setting name before op).getD Scalar.nan) := by
  have hkept : ∀ op : Operation α, (∀ e', e.attempt op = .ok e' →
      e'.Holds i name (before.getD Scalar.nan)) →
      (e.perform op).Holds i name (before.getD Scalar.nan) := fun op hstep =>
    perform_induction (P := fun e' => e'.Holds i name (before.getD Scalar.nan)) h op hstep
  cases op with
  | addInput v => exact hkept _ fun e' hop => h.addInput hop
  | addOutput v =>
    refine hkept _ fun e' hop => h.of_inputs ?_
    obtain ⟨_, rfl⟩ := (addOutput_ok_iff v).mp hop
    rfl
  | addBlock b =>
    refine hkept _ fun e' hop => h.of_inputs ?_
    obtain ⟨_, rfl⟩ := (addBlock_ok_iff b).mp hop
    rfl
  | process =>
    refine hkept _ fun e' hop => h.of_inputs ?_
    cases process_ok hop
    rfl
  | setInput n value =>
    by_cases hn : n = name
    · subst hn
      -- There is an input of this name, so the setting cannot be refused.
      obtain ⟨e', hset⟩ : ∃ e', e.setInput n value = .ok e' := by
        unfold Engine.setInput
        rw [h.first]
        exact ⟨_, rfl⟩
      have hperform : e.perform (.setInput n value) = e' := perform_of_ok hset
      have hholds := h.setInput n value hset
      rw [if_pos rfl] at hholds
      rw [hperform, setting, if_pos rfl]
      exact hholds
    · rw [setting, if_neg hn]
      refine hkept _ fun e' hop => ?_
      have hholds := h.setInput n value hop
      rwa [if_neg hn] at hholds
  | restart => exact h.restart

/-- **Any sequence of operations**: the input has the value that it was set to last. -/
theorem Holds.foldl_perform {before : Option α} (h : e.Holds i name (before.getD Scalar.nan))
    (ops : List (Operation α)) :
    (ops.foldl Engine.perform e).Holds i name
      ((ops.foldl (setting name) before).getD Scalar.nan) := by
  induction ops generalizing e before with
  | nil => exact h
  | cons op ops ih => exact ih (h.perform op)

end Holds

/-- Variables with different names are each the first of its name. -/
theorem holds_restart {e : Engine α} (h : e.names.Nodup) {i : Nat} {v : Input α}
    (hv : e.inputs[i]? = some v) : e.restart.Holds i v.name Scalar.nan := by
  obtain ⟨hi, rfl⟩ := List.getElem?_eq_some_iff.mp hv
  have hnodup : (e.inputs.map (·.name)).Nodup := (List.nodup_append.mp h).1
  have hfirst : e.inputs.findIdx? (·.name == e.inputs[i].name) = some i := by
    refine List.findIdx?_eq_some_iff_getElem.mpr ⟨hi, by simp, fun j hji hsame => ?_⟩
    have hj : j < e.inputs.length := Nat.lt_trans hji hi
    have hnames : (e.inputs.map (·.name))[j]? = (e.inputs.map (·.name))[i]? := by
      rw [List.getElem?_map, List.getElem?_map, List.getElem?_eq_getElem hj,
        List.getElem?_eq_getElem hi]
      exact congrArg some (beq_iff_eq.mp hsame)
    exact Nat.ne_of_lt hji ((List.getElem?_inj (by simpa using hj) hnodup).mp hnames)
  exact Holds.restart ⟨hfirst, congrArg (Option.map (·.value)) hv⟩

/-- A value that may not have been set is a number exactly if it was set to one. -/
theorem isFinite_getD_iff (hnan : Scalar.isFinite (Scalar.nan : α) = false) (held : Option α) :
    Scalar.isFinite (held.getD Scalar.nan) = true
      ↔ ∃ x, held = some x ∧ Scalar.isFinite x = true := by
  cases held with
  | none => simp [hnan]
  | some x => simp

/-- **After a restart** an engine infers again exactly when it lacks nothing, every input that it
had has last been set to a number, and the inputs that were added since are numbers. -/
theorem process_restarted_iff {e : Engine α} (h : e.names.Nodup)
    (hnan : Scalar.isFinite (Scalar.nan : α) = false) (ops : List (Operation α)) :
    (∃ e', (ops.foldl perform e.restart).process = .ok e')
      ↔ (ops.foldl perform e.restart).missing? = none
        ∧ (∀ v ∈ e.inputs, ∃ x, lastSet? v.name ops = some x ∧ Scalar.isFinite x = true)
        ∧ ∀ v ∈ (ops.foldl perform e.restart).inputs.drop e.inputs.length, v.isSet = true := by
  have hlast : ∀ (i : Nat) (v : Input α), e.inputs[i]? = some v →
      ∃ w : Input α, (ops.foldl perform e.restart).inputs[i]? = some w
        ∧ w.value = (lastSet? v.name ops).getD Scalar.nan := by
    intro i v hv
    have hunset : e.restart.Holds i v.name ((none : Option α).getD Scalar.nan) :=
      holds_restart h hv
    exact Option.map_eq_some_iff.mp (hunset.foldl_perform ops).value
  rw [process_ok_iff]
  refine and_congr_right fun _ => ⟨fun hall => ⟨fun v hv => ?_, fun w hw => ?_⟩, ?_⟩
  · obtain ⟨i, hi⟩ := List.getElem?_of_mem hv
    obtain ⟨w, hw, hvalue⟩ := hlast i v hi
    have hset : Scalar.isFinite w.value = true := hall w (List.mem_of_getElem? hw)
    rw [hvalue] at hset
    exact (isFinite_getD_iff hnan _).mp hset
  · exact hall w (List.mem_of_mem_drop hw)
  · rintro ⟨hold, hnew⟩ w hw
    obtain ⟨j, hj⟩ := List.getElem?_of_mem hw
    rcases Nat.lt_or_ge j e.inputs.length with hlt | hge
    · obtain ⟨w', hw', hvalue⟩ := hlast j _ (List.getElem?_eq_getElem hlt)
      cases hj.symm.trans hw'
      show Scalar.isFinite w.value = true
      rw [hvalue]
      exact (isFinite_getD_iff hnan _).mpr (hold _ (List.getElem_mem hlt))
    · refine hnew w (List.mem_of_getElem? (i := j - e.inputs.length) ?_)
      rw [List.getElem?_drop, Nat.add_sub_cancel' hge]
      exact hj

/-! ## §5. The cycle. -/

theorem after_inference_ok {e e' : Engine α} (h : e.process = .ok e') :
    after inference e = (.ok (), e') := by
  rw [after_inference]
  unfold perform attempt
  rw [h]
  rfl

theorem after_inference_error {e : Engine α} {error : Error α} (h : e.process = .error error) :
    after inference e = (.error error, e) := by
  rw [after_inference]
  unfold perform attempt
  rw [h]
  rfl

theorem after_inference_ok_iff (e : Engine α) :
    (after inference e).1 = .ok () ↔ ∃ e', e.process = .ok e' := by
  cases h : e.process with
  | ok e' =>
    rw [after_inference_ok h]
    exact ⟨fun _ => ⟨e', rfl⟩, fun _ => rfl⟩
  | error error =>
    rw [after_inference_error h]
    constructor
    · intro hok
      cases hok
    · rintro ⟨_, hok⟩
      cases hok

/-- **An inference depends on the variables, the rules and the input values alone, and it fails as
a whole.**  Between engines that are alike, whatever earlier inferences left in their outputs:
both answer the same, namely success exactly if there are an input, an output and a rule and every
input is a number; then both end in the same state, and a second inference changes nothing; and
after an error both are as they were.  After a restart, and whatever operations came after it,
there is success exactly if nothing is lacking and every input has last been set to a number (or
was added since, as a number).  In all this, what happens in place is what `process` says. -/
theorem inference_determined {e f : Engine Float} (h : e.Alike f) :
    (∀ g : Engine Float, after inference g = (g.process.map fun _ => (), g.perform .process))
      ∧ (after inference f).1 = (after inference e).1
      ∧ ((after inference e).1 = .ok () ↔ e.inputs ≠ [] ∧ e.outputs ≠ []
          ∧ (∃ b ∈ e.blocks, b.rules ≠ []) ∧ ∀ v ∈ e.inputs, Scalar.isFinite v.value = true)
      ∧ ((after inference e).1 = .ok () →
          (after inference f).2 = { (after inference e).2 with name := f.name }
            ∧ after inference (after inference e).2 = (.ok (), (after inference e).2))
      ∧ ((after inference e).1 ≠ .ok () → (after inference e).2 = e ∧ (after inference f).2 = f)
      ∧ (e.Reachable → ∀ ops : List (Operation Float),
          (after inference (ops.foldl perform e.restart)).1 = .ok ()
            ↔ (ops.foldl perform e.restart).missing? = none
              ∧ (∀ v ∈ e.inputs, ∃ x, lastSet? v.name ops = some x ∧ Scalar.isFinite x = true)
              ∧ ∀ v ∈ (ops.foldl perform e.restart).inputs.drop e.inputs.length,
                  Scalar.isFinite v.value = true) := by
  have hsucceeds : (after inference e).1 = .ok () ↔ e.inputs ≠ [] ∧ e.outputs ≠ []
      ∧ (∃ b ∈ e.blocks, b.rules ≠ []) ∧ ∀ v ∈ e.inputs, Scalar.isFinite v.value = true := by
    rw [after_inference_ok_iff, process_ok_iff, missing?_eq_none_iff, and_assoc, and_assoc]
    exact Iff.rfl
  have hrestarted := fun (hreachable : e.Reachable) (ops : List (Operation Float)) =>
    (after_inference_ok_iff _).trans
      (process_restarted_iff hreachable.sound.names (by decide +kernel) ops)
  have hsame := h.process_eq
  cases hprocess : e.process with
  | ok e' =>
    rw [hprocess] at hsame
    have hagain := after_inference_ok (process_of_process hprocess)
    rw [after_inference_ok hprocess, after_inference_ok hsame] at *
    exact ⟨after_inference, rfl, hsucceeds, fun _ => ⟨rfl, hagain⟩, fun hnot => absurd rfl hnot,
      hrestarted⟩
  | error error =>
    rw [hprocess] at hsame
    rw [after_inference_error hprocess, after_inference_error hsame] at *
    exact ⟨after_inference, rfl, hsucceeds, fun hok => (by cases hok), fun _ => ⟨rfl, rfl⟩,
      hrestarted⟩

section Cycled

/-- An output for trials. -/
def cycledOutput : Output Float :=
  ⟨"Y", 0.0, 1.0, [⟨"UP", .ramp 0.0 1.0⟩], .maximum, .standard, Scalar.nan, [], Scalar.nan⟩

theorem madeOutput_cycledOutput : MadeOutput cycledOutput := by
  have hnew : Output.new "Y" (0.0 : Float) 1.0
      = .ok ⟨"Y", 0.0, 1.0, [], .maximum, .standard, Scalar.nan, [], Scalar.nan⟩ :=
    Output.new_of_ok (by decide +kernel) (if_pos (by decide +kernel))
  exact (MadeOutput.new hnew).withTerm ⟨"UP", .ramp 0.0 1.0⟩

/-- Operations that build an engine with an input that its rule uses and one that it does not. -/
def cycledAssembly : List (Operation Float) :=
  [.addInput ⟨"A", 0.0, 1.0, [⟨"HIGH", .ramp 0.0 1.0⟩], Scalar.nan⟩,
    .addInput ⟨"B", 0.0, 1.0, [], Scalar.nan⟩, .addOutput cycledOutput,
    .addBlock ⟨"block", .minimum, .maximum, .algebraicProduct,
      [⟨"", .prop ⟨0, 0, false⟩, [⟨0, 0, false⟩], 1.0⟩]⟩,
    .setInput "A" 0.75, .setInput "B" 0.25]

/-- The engine that these operations build. -/
def cycled : Engine Float := cycledAssembly.foldl perform (new "cycled")

/-- The same with leftovers of other inferences. -/
def littered : Engine Float :=
  { cycled with
    name := "littered"
    outputs := cycled.outputs.map fun v =>
      { v with activations := [⟨0, 0.5, .minimum⟩, ⟨0, 1.0, .algebraicProduct⟩], value := 0.125 } }

theorem reachable_cycled : cycled.Reachable := by
  refine (Reachable.new "cycled").foldl_perform cycledAssembly fun v hv => ?_
  have hname : v = cycledOutput := by
    simpa [cycledAssembly] using hv
  rw [hname]
  exact madeOutput_cycledOutput

/-- With and without leftovers an inference succeeds and comes to the same.  After a restart it
fails as long as the second input is not set, which no rule uses, and then succeeds again. -/
theorem cycled_determined : cycled.Alike littered ∧ cycled.Reachable
    ∧ (after inference cycled).1 = .ok ()
    ∧ (after inference littered).2 = { (after inference cycled).2 with name := "littered" }
    ∧ (after inference (perform cycled.restart (.setInput "A" 0.5))).1 ≠ .ok ()
    ∧ (after inference (perform (perform cycled.restart (.setInput "A" 0.5))
        (.setInput "B" 0.5))).1 = .ok () := by
  have halike : cycled.Alike littered := ⟨rfl, by simp [littered, Output.cleared], rfl⟩
  obtain ⟨_, _, hsucceeds, hsame, _, hrestarted⟩ := inference_determined halike
  have hok : (after inference cycled).1 = .ok () := by
    have hrules : cycled.blocks.map (·.rules.length) = [1] := by decide +kernel
    obtain ⟨b, hb, hone⟩ := List.mem_map.mp (hrules ▸ List.mem_singleton_self 1)
    exact hsucceeds.mpr ⟨List.ne_nil_of_length_pos (by decide +kernel),
      List.ne_nil_of_length_pos (by decide +kernel),
      ⟨b, hb, List.ne_nil_of_length_pos (hone ▸ Nat.one_pos)⟩, by decide +kernel⟩
  have hnames : cycled.inputs.map (·.name) = ["A", "B"] := by decide +kernel
  refine ⟨halike, reachable_cycled, hok, (hsame hok).1, ?_, ?_⟩
  · intro hagain
    have hset := ((hrestarted reachable_cycled [.setInput "A" 0.5]).mp hagain).2.1
    obtain ⟨v, hv, hname⟩ : ∃ v ∈ cycled.inputs, v.name = "B" :=
      List.mem_map.mp (hnames ▸ (by simp : "B" ∈ ["A", "B"]))
    obtain ⟨x, hx, _⟩ := hset v hv
    rw [hname] at hx
    simp [lastSet?, setting] at hx
  · refine (hrestarted reachable_cycled [.setInput "A" 0.5, .setInput "B" 0.5]).mpr
      ⟨by decide +kernel, fun v hv => ⟨0.5, ?_, by decide +kernel⟩, by decide +kernel⟩
    have hname : v.name ∈ ["A", "B"] := hnames ▸ List.mem_map_of_mem hv
    rcases List.mem_cons.mp hname with hname | hname
    · simp [hname, lastSet?, setting]
    · simp [List.mem_singleton.mp hname, lastSet?, setting]

end Cycled

end Engine

end CapacityControl.Fuzzy
