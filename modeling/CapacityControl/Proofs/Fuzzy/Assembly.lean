/-
  CapacityControl.Proofs.Fuzzy.Assembly
  ─────────────────────────────────────
  ENGINES BY CONSTRUCTION.  An engine begins empty and changes by six operations, of
  which a refused one leaves it as it was (`Reachable`).  No operation takes a variable
  or a term away (`Extends`), so what a rule referred to when its block was admitted is
  still there whenever the rule is used: every reachable engine is `Sound`
  (`Reachable.sound`).
-/
import CapacityControl.Fuzzy.Engine

namespace CapacityControl.Fuzzy

variable {α : Type} [Scalar α]

/-! ## §1. Operations. -/

/-- What can be asked of an engine that changes it. -/
inductive Operation (α : Type) where
  | addInput (v : Input α)
  | addOutput (v : Output α)
  | addBlock (b : RuleBlock α)
  | setInput (name : String) (value : α)
  | process
  | restart

/-- Whether the operation adds a variable or a block. -/
def Operation.adds : Operation α → Bool
  | addInput _ | addOutput _ | addBlock _ => true
  | setInput _ _ | process | restart => false

/-- The inputs that the operation adds. -/
def Operation.addedInputs : Operation α → List (Input α)
  | addInput v => [v]
  | addOutput _ | addBlock _ | setInput _ _ | process | restart => []

/-- The outputs that the operation adds. -/
def Operation.addedOutputs : Operation α → List (Output α)
  | addOutput v => [v]
  | addInput _ | addBlock _ | setInput _ _ | process | restart => []

namespace Engine

/-- What an operation makes of an engine, or why it is refused. -/
def attempt (e : Engine α) : Operation α → Except (Error α) (Engine α)
  | .addInput v => e.addInput v
  | .addOutput v => e.addOutput v
  | .addBlock b => e.addBlock b
  | .setInput name value => e.setInput name value
  | .process => e.process
  | .restart => .ok e.restart

/-- **The engine after an operation**, refused or not. -/
def perform (e : Engine α) (op : Operation α) : Engine α :=
  match e.attempt op with
  | .ok e' => e'
  | .error _ => e

theorem perform_of_ok {e e' : Engine α} {op : Operation α} (h : e.attempt op = .ok e') :
    e.perform op = e' := by
  unfold perform
  rw [h]

/-- What every operation that goes through keeps, every operation keeps. -/
theorem perform_induction {P : Engine α → Prop} {e : Engine α} (h : P e) (op : Operation α)
    (hstep : ∀ e', e.attempt op = .ok e' → P e') : P (e.perform op) := by
  unfold perform
  cases hop : e.attempt op with
  | ok e' => exact hstep e' hop
  | error _ => exact h

mutual

/-- **An engine that came about** by operations, some of which may have been refused.  Inputs,
blocks and rules are any that can be written down. -/
inductive Reachable : Engine α → Prop
  | new (name : String) : Reachable (new name)
  | perform {e : Engine α} (h : Reachable e) (op : Operation α)
      (hmade : ∀ v, op = .addOutput v → MadeOutput v) : Reachable (e.perform op)

/-- **An output that came about** by the checked constructor, or as a copy from an engine with
the activations that it has there, and was then set up further. -/
inductive MadeOutput : Output α → Prop
  | new {name : String} {minimum maximum : α} {v : Output α}
      (h : Output.new name minimum maximum = .ok v) : MadeOutput v
  | copied {e : Engine α} {v : Output α} (h : Reachable e) (hv : v ∈ e.outputs) : MadeOutput v
  | withTerm {v : Output α} (h : MadeOutput v) (t : Term α) : MadeOutput (v.withTerm t)
  | configured {v : Output α} (h : MadeOutput v) (aggregation : SNorm) (centroid : Centroid)
      (fallback : α) :
      MadeOutput { v with aggregation := aggregation, centroid := centroid, fallback := fallback }

end

/-- **A list of operations** leads from one reachable engine to another. -/
theorem Reachable.foldl_perform {e : Engine α} (h : Reachable e) (ops : List (Operation α))
    (hmade : ∀ v, .addOutput v ∈ ops → MadeOutput v) : Reachable (ops.foldl Engine.perform e) := by
  induction ops generalizing e with
  | nil => exact h
  | cons op ops ih =>
    refine ih (h.perform op fun v hv => hmade v ?_) fun v hv => hmade v (List.mem_cons_of_mem _ hv)
    rw [← hv]
    exact List.mem_cons_self

end Engine

/-! ## §2. What refers to what. -/

/-- The propositions that a condition is made of, wherever they stand in it. -/
inductive Condition.Mentions (p : Proposition) : Condition → Prop
  | prop : Mentions p (.prop p)
  | andLeft {l r : Condition} (h : Mentions p l) : Mentions p (.and l r)
  | andRight {l r : Condition} (h : Mentions p r) : Mentions p (.and l r)
  | orLeft {l r : Condition} (h : Mentions p l) : Mentions p (.or l r)
  | orRight {l r : Condition} (h : Mentions p r) : Mentions p (.or l r)

/-- **No proposition is passed over** when those of a condition are collected. -/
theorem Condition.mem_propositions_iff (p : Proposition) (c : Condition) :
    p ∈ c.propositions ↔ c.Mentions p := by
  induction c with
  | prop q =>
    unfold propositions
    rw [List.mem_singleton]
    constructor
    · rintro rfl
      exact .prop
    · rintro ⟨⟩
      rfl
  | and l r ihl ihr =>
    unfold propositions
    rw [List.mem_append, ihl, ihr]
    constructor
    · rintro (h | h)
      · exact .andLeft h
      · exact .andRight h
    · rintro (_ | h | h)
      · exact Or.inl h
      · exact Or.inr h
  | or l r ihl ihr =>
    unfold propositions
    rw [List.mem_append, ihl, ihr]
    constructor
    · rintro (h | h)
      · exact .orLeft h
      · exact .orRight h
    · rintro (_ | _ | _ | h | h)
      · exact Or.inl h
      · exact Or.inr h

/-- **A proposition that refers** to one of several variables, each given by its terms, and to
one of its terms. -/
def Proposition.Inside (owners : List (List (Term α))) (p : Proposition) : Prop :=
  ∃ terms, owners[p.var]? = some terms ∧ p.term < terms.length

omit [Scalar α] in
/-- What is inside stays inside if variables are added at the end. -/
theorem Proposition.Inside.mono {owners owners' : List (List (Term α))} {p : Proposition}
    (hp : p.Inside owners) (h : owners <+: owners') : p.Inside owners' := by
  obtain ⟨terms, hvar, hterm⟩ := hp
  obtain ⟨added, rfl⟩ := h
  obtain ⟨hlt, _⟩ := List.getElem?_eq_some_iff.mp hvar
  exact ⟨terms, (List.getElem?_append_left hlt).trans hvar, hterm⟩

namespace Engine

/-- The names of all variables. -/
def names (e : Engine α) : List String := e.inputs.map (·.name) ++ e.outputs.map (·.name)

/-- The terms of each input. -/
def inputTerms (e : Engine α) : List (List (Term α)) := e.inputs.map (·.terms)

/-- The terms of each output. -/
def outputTerms (e : Engine α) : List (List (Term α)) := e.outputs.map (·.terms)

/-- **A rule that refers only to what the engine has**: whatever its condition mentions is an
input and one of its terms, and whatever it concludes an output and one of its terms. -/
structure Grounds (e : Engine α) (r : Rule α) : Prop where
  condition : ∀ p, r.condition.Mentions p → p.Inside e.inputTerms
  consequents : ∀ c ∈ r.consequents, c.Inside e.outputTerms

omit [Scalar α] in
theorem isTaken_iff (e : Engine α) (name : String) : e.isTaken name = true ↔ name ∈ e.names := by
  unfold isTaken names
  simp only [Bool.or_eq_true, List.any_eq_true, beq_iff_eq, List.mem_append, List.mem_map]

omit [Scalar α] in
theorem hasInputTerm_iff (e : Engine α) (p : Proposition) :
    e.hasInputTerm p = true ↔ p.Inside e.inputTerms := by
  unfold hasInputTerm Proposition.Inside inputTerms
  rw [List.getElem?_map]
  cases e.inputs[p.var]? with
  | none => simp
  | some v => simp

omit [Scalar α] in
theorem hasOutputTerm_iff (e : Engine α) (p : Proposition) :
    e.hasOutputTerm p = true ↔ p.Inside e.outputTerms := by
  unfold hasOutputTerm Proposition.Inside outputTerms
  rw [List.getElem?_map]
  cases e.outputs[p.var]? with
  | none => simp
  | some v => simp

omit [Scalar α] in
/-- **The check of a rule** finds out exactly whether the engine has what the rule refers to. -/
theorem admits_iff (e : Engine α) (r : Rule α) : e.admits r = true ↔ e.Grounds r := by
  unfold admits
  rw [Bool.and_eq_true, List.all_eq_true, List.all_eq_true]
  simp only [Condition.mem_propositions_iff, hasInputTerm_iff, hasOutputTerm_iff]
  exact ⟨fun ⟨hcondition, hconsequents⟩ => ⟨hcondition, hconsequents⟩,
    fun ⟨hcondition, hconsequents⟩ => ⟨hcondition, hconsequents⟩⟩

end Engine

/-! ## §3. The invariant. -/

/-- An output with a proper range whose activations are of terms that it has. -/
structure Output.Sound (v : Output α) : Prop where
  range : checkRange v.minimum v.maximum = .ok ()
  activations : ∀ a ∈ v.activations, a.term < v.terms.length

theorem Output.Sound.of_new {name : String} {minimum maximum : α} {v : Output α}
    (h : Output.new name minimum maximum = .ok v) : v.Sound := by
  unfold Output.new at h
  cases hname : checkName name with
  | error _ =>
    rw [hname] at h
    cases h
  | ok _ =>
    cases hrange : checkRange minimum maximum with
    | error _ =>
      rw [hname, hrange] at h
      cases h
    | ok _ =>
      rw [hname, hrange] at h
      cases h
      exact ⟨hrange, fun _ ha => absurd ha List.not_mem_nil⟩

theorem Output.Sound.cleared {v : Output α} (h : v.Sound) : v.cleared.Sound :=
  ⟨h.range, fun _ ha => absurd ha List.not_mem_nil⟩

theorem Output.Sound.withTerm {v : Output α} (h : v.Sound) (t : Term α) : (v.withTerm t).Sound := by
  refine ⟨h.range, fun a ha => ?_⟩
  show a.term < (v.terms ++ [t]).length
  rw [List.length_append]
  exact Nat.lt_of_lt_of_le (h.activations a ha) (Nat.le_add_right _ _)

namespace Engine

/-- **The invariant of an engine.** -/
structure Sound (e : Engine α) : Prop where
  names : e.names.Nodup
  rules : ∀ b ∈ e.blocks, ∀ r ∈ b.rules, e.Grounds r
  outputs : ∀ v ∈ e.outputs, v.Sound

/-- **The variables of an engine with their terms are still there**, others perhaps after
them. -/
structure Extends (e e' : Engine α) : Prop where
  inputs : e.inputTerms <+: e'.inputTerms
  outputs : e.outputTerms <+: e'.outputTerms

omit [Scalar α] in
theorem Grounds.mono {e e' : Engine α} {r : Rule α} (hr : e.Grounds r) (h : e.Extends e') :
    e'.Grounds r :=
  ⟨fun p hp => (hr.condition p hp).mono h.inputs, fun c hc => (hr.consequents c hc).mono h.outputs⟩

/-- Names and terms of the variables and the blocks decide which rules are grounded, so an
operation on values only has to leave sound outputs. -/
theorem Sound.of_outputs {e e' : Engine α} (h : e.Sound) (hnames : e'.names = e.names)
    (hblocks : e'.blocks = e.blocks) (hextends : e.Extends e')
    (houtputs : ∀ v ∈ e'.outputs, v.Sound) : e'.Sound := by
  refine ⟨hnames ▸ h.names, fun b hb r hr => ?_, houtputs⟩
  rw [hblocks] at hb
  exact (h.rules b hb r hr).mono hextends

/-! ## §4. Every operation keeps it. -/

variable {e e' : Engine α}

omit [Scalar α] in
theorem addInput_ok_iff (v : Input α) :
    e.addInput v = .ok e' ↔ v.name ∉ e.names ∧ e' = { e with inputs := e.inputs ++ [v] } := by
  unfold addInput
  by_cases htaken : e.isTaken v.name = true
  · have hmem := (isTaken_iff e v.name).mp htaken
    simp [htaken, hmem]
  · have hmem := mt (isTaken_iff e v.name).mpr htaken
    rw [if_neg htaken, Except.ok.injEq]
    exact ⟨fun h => ⟨hmem, h.symm⟩, fun h => h.2.symm⟩

omit [Scalar α] in
theorem addOutput_ok_iff (v : Output α) :
    e.addOutput v = .ok e' ↔ v.name ∉ e.names ∧ e' = { e with outputs := e.outputs ++ [v] } := by
  unfold addOutput
  by_cases htaken : e.isTaken v.name = true
  · have hmem := (isTaken_iff e v.name).mp htaken
    simp [htaken, hmem]
  · have hmem := mt (isTaken_iff e v.name).mpr htaken
    rw [if_neg htaken, Except.ok.injEq]
    exact ⟨fun h => ⟨hmem, h.symm⟩, fun h => h.2.symm⟩

omit [Scalar α] in
theorem addBlock_ok_iff (b : RuleBlock α) :
    e.addBlock b = .ok e'
      ↔ (∀ r ∈ b.rules, e.Grounds r) ∧ e' = { e with blocks := e.blocks ++ [b] } := by
  unfold addBlock
  have hall : b.rules.all e.admits = true ↔ ∀ r ∈ b.rules, e.Grounds r := by
    simp only [List.all_eq_true, admits_iff]
  by_cases hgrounds : ∀ r ∈ b.rules, e.Grounds r
  · rw [if_pos (hall.mpr hgrounds), Except.ok.injEq]
    exact ⟨fun h => ⟨hgrounds, h.symm⟩, fun h => h.2.symm⟩
  · rw [if_neg (mt hall.mp hgrounds)]
    constructor
    · intro h
      cases h
    · intro h
      exact absurd h.1 hgrounds

theorem Sound.addInput (h : e.Sound) {v : Input α} (hadd : e.addInput v = .ok e') : e'.Sound := by
  obtain ⟨hfree, rfl⟩ := (addInput_ok_iff v).mp hadd
  have hextends : e.Extends { e with inputs := e.inputs ++ [v] } :=
    ⟨⟨[v.terms], by simp [inputTerms]⟩, List.prefix_rfl⟩
  refine ⟨?_, fun b hb r hr => (h.rules b hb r hr).mono hextends, h.outputs⟩
  show ((e.inputs ++ [v]).map (·.name) ++ e.outputs.map (·.name)).Nodup
  rw [List.map_append, List.append_assoc]
  exact List.perm_middle.nodup_iff.mpr (List.nodup_cons.mpr ⟨hfree, h.names⟩)

theorem Sound.addOutput (h : e.Sound) {v : Output α} (hv : v.Sound)
    (hadd : e.addOutput v = .ok e') : e'.Sound := by
  obtain ⟨hfree, rfl⟩ := (addOutput_ok_iff v).mp hadd
  have hextends : e.Extends { e with outputs := e.outputs ++ [v] } :=
    ⟨List.prefix_rfl, ⟨[v.terms], by simp [outputTerms]⟩⟩
  refine ⟨?_, fun b hb r hr => (h.rules b hb r hr).mono hextends, fun w hw => ?_⟩
  · show (e.inputs.map (·.name) ++ (e.outputs ++ [v]).map (·.name)).Nodup
    rw [List.map_append, ← List.append_assoc]
    exact (List.perm_append_singleton v.name e.names).nodup_iff.mpr
      (List.nodup_cons.mpr ⟨hfree, h.names⟩)
  · rcases List.mem_append.mp hw with hw | hw
    · exact h.outputs w hw
    · cases List.mem_singleton.mp hw
      exact hv

theorem Sound.addBlock (h : e.Sound) {b : RuleBlock α} (hadd : e.addBlock b = .ok e') :
    e'.Sound := by
  obtain ⟨hgrounds, rfl⟩ := (addBlock_ok_iff b).mp hadd
  have hextends : e.Extends { e with blocks := e.blocks ++ [b] } :=
    ⟨List.prefix_rfl, List.prefix_rfl⟩
  refine ⟨h.names, fun b' hb' r hr => ?_, h.outputs⟩
  rcases List.mem_append.mp hb' with hb' | hb'
  · exact (h.rules b' hb' r hr).mono hextends
  · cases List.mem_singleton.mp hb'
    exact (hgrounds r hr).mono hextends

omit [Scalar α] in
/-- Setting an input changes nothing but its value. -/
theorem map_setInput {γ : Type} (f : Input α → γ) (hf : ∀ v x, f { v with value := x } = f v)
    {name : String} {value : α} (hset : e.setInput name value = .ok e') :
    e'.inputs.map f = e.inputs.map f ∧ e'.outputs = e.outputs ∧ e'.blocks = e.blocks := by
  unfold Engine.setInput at hset
  cases hindex : e.inputs.findIdx? (·.name == name) with
  | none =>
    rw [hindex] at hset
    cases hset
  | some i =>
    rw [hindex] at hset
    cases hset
    refine ⟨List.ext_getElem? fun j => ?_, rfl, rfl⟩
    rw [List.getElem?_map, List.getElem?_map, List.getElem?_modify]
    by_cases hij : i = j
    · cases e.inputs[j]? with
      | none => rfl
      | some v => simp [hij, hf]
    · simp [hij]

theorem Sound.setInput (h : e.Sound) {name : String} {value : α}
    (hset : e.setInput name value = .ok e') : e'.Sound := by
  obtain ⟨hnames, houtputs, hblocks⟩ := map_setInput (·.name) (fun _ _ => rfl) hset
  obtain ⟨hterms, _⟩ := map_setInput (·.terms) (fun _ _ => rfl) hset
  refine h.of_outputs ?_ hblocks ⟨?_, ?_⟩ (houtputs ▸ h.outputs)
  · unfold Engine.names
    rw [hnames, houtputs]
  · have hsame : e'.inputTerms = e.inputTerms := hterms
    exact hsame ▸ List.prefix_rfl
  · have hsame : e'.outputTerms = e.outputTerms := congrArg (·.map (·.terms)) houtputs
    exact hsame ▸ List.prefix_rfl

theorem Sound.restart (h : e.Sound) : e.restart.Sound := by
  refine h.of_outputs ?_ rfl ⟨?_, ?_⟩ fun v hv => ?_
  · simp [Engine.names, Engine.restart, Output.cleared, Function.comp_def]
  · simp [inputTerms, Engine.restart, Function.comp_def]
  · simp [outputTerms, Engine.restart, Output.cleared, Function.comp_def]
  · obtain ⟨w, hw, rfl⟩ := List.mem_map.mp hv
    exact (h.outputs w hw).cleared

/-- **An activation comes from a consequent** of a rule that fires. -/
theorem exists_consequent_of_mem_activationsOf {i : Nat} {a : Activation α}
    (ha : a ∈ activationsOf i e.firings) :
    ∃ b ∈ e.blocks, ∃ r ∈ b.rules, ∃ c ∈ r.consequents, c.var = i
      ∧ 0.0 < b.degreeOf e.inputs r ∧ a = ⟨c.term, b.degreeOf e.inputs r, b.implication⟩ := by
  obtain ⟨f, hf, ha⟩ := List.mem_flatMap.mp ha
  obtain ⟨c, hc, rfl⟩ := List.mem_map.mp ha
  obtain ⟨hc, hvar⟩ := List.mem_filter.mp hc
  obtain ⟨b, hb, hf⟩ := List.mem_flatMap.mp hf
  obtain ⟨r, hr, hfires⟩ := List.mem_filterMap.mp hf
  by_cases hpos : 0.0 < b.degreeOf e.inputs r
  · rw [if_pos hpos] at hfires
    cases hfires
    exact ⟨b, hb, r, hr, c, hc, beq_iff_eq.mp hvar, hpos, rfl⟩
  · rw [if_neg hpos] at hfires
    cases hfires

omit [Scalar α] in
/-- A consequent was checked against the terms of the output that it is about. -/
theorem Grounds.term_lt {r : Rule α} (h : e.Grounds r) {c : Proposition} (hc : c ∈ r.consequents)
    {i : Nat} (hvar : c.var = i) (hi : i < e.outputs.length) :
    c.term < e.outputs[i].terms.length := by
  obtain ⟨terms, hterms, hterm⟩ := h.consequents c hc
  rw [hvar, outputTerms, List.getElem?_map, List.getElem?_eq_getElem hi] at hterms
  cases hterms
  exact hterm

/-- What the rules of a sound engine activate are terms of the output at hand. -/
theorem Sound.term_lt_of_mem_activationsOf (h : e.Sound) {i : Nat} (hi : i < e.outputs.length)
    {a : Activation α} (ha : a ∈ activationsOf i e.firings) : a.term < e.outputs[i].terms.length := by
  obtain ⟨b, hb, r, hr, c, hc, hvar, _, rfl⟩ := exists_consequent_of_mem_activationsOf ha
  exact (h.rules b hb r hr).term_lt hc hvar hi

theorem process_ok {e' : Engine α} (hprocess : e.process = .ok e') :
    e' = { e with outputs := e.inferred } := by
  unfold process at hprocess
  cases hmissing : e.missing? with
  | some m =>
    rw [hmissing] at hprocess
    cases hprocess
  | none =>
    rw [hmissing] at hprocess
    cases hunset : e.inputs.find? (!·.isSet) with
    | some v =>
      rw [hunset] at hprocess
      cases hprocess
    | none =>
      rw [hunset] at hprocess
      cases hprocess
      rfl

/-- Inference changes nothing of an output but its activations and its value. -/
theorem map_inferred {γ : Type} (f : Output α → γ)
    (hf : ∀ v as x, f { v with activations := as, value := x } = f v) :
    e.inferred.map f = e.outputs.map f := by
  refine List.ext_getElem? fun i => ?_
  unfold inferred
  rw [List.getElem?_map, List.getElem?_map, List.getElem?_mapIdx]
  cases e.outputs[i]? with
  | none => rfl
  | some v => exact congrArg some (hf v _ _)

/-- **What an operation does to the variables**: it puts those that it adds behind the others and
changes nothing of these but values and activations. -/
theorem map_attempt {γ δ : Type} (f : Input α → γ) (g : Output α → δ)
    (hf : ∀ v x, f { v with value := x } = f v)
    (hg : ∀ v as x, g { v with activations := as, value := x } = g v) {op : Operation α}
    (h : e.attempt op = .ok e') :
    e'.inputs.map f = e.inputs.map f ++ op.addedInputs.map f
      ∧ e'.outputs.map g = e.outputs.map g ++ op.addedOutputs.map g := by
  cases op with
  | addInput v =>
    obtain ⟨_, rfl⟩ := (addInput_ok_iff v).mp h
    exact ⟨List.map_append, (List.append_nil _).symm⟩
  | addOutput v =>
    obtain ⟨_, rfl⟩ := (addOutput_ok_iff v).mp h
    exact ⟨(List.append_nil _).symm, List.map_append⟩
  | addBlock b =>
    obtain ⟨_, rfl⟩ := (addBlock_ok_iff b).mp h
    exact ⟨(List.append_nil _).symm, (List.append_nil _).symm⟩
  | setInput name value =>
    obtain ⟨hinputs, houtputs, _⟩ := map_setInput f hf h
    rw [hinputs, houtputs]
    exact ⟨(List.append_nil _).symm, (List.append_nil _).symm⟩
  | process =>
    cases process_ok h
    exact ⟨(List.append_nil _).symm, (map_inferred g hg).trans (List.append_nil _).symm⟩
  | restart =>
    cases h
    refine ⟨?_, ?_⟩
    · simp [Engine.restart, Operation.addedInputs, Function.comp_def, hf]
    · simp [Engine.restart, Operation.addedOutputs, Output.cleared, Function.comp_def, hg]

theorem Sound.process (h : e.Sound) (hprocess : e.process = .ok e') : e'.Sound := by
  cases process_ok hprocess
  refine h.of_outputs ?_ rfl ⟨List.prefix_rfl, ?_⟩ fun v hv => ?_
  · show e.inputs.map (·.name) ++ e.inferred.map (·.name) = e.names
    rw [map_inferred (·.name) fun _ _ _ => rfl]
    rfl
  · show e.outputTerms <+: e.inferred.map (·.terms)
    rw [map_inferred (·.terms) fun _ _ _ => rfl]
    exact List.prefix_rfl
  · obtain ⟨i, hi, rfl⟩ := List.mem_mapIdx.mp hv
    exact ⟨(h.outputs _ (List.getElem_mem hi)).range,
      fun a ha => h.term_lt_of_mem_activationsOf hi ha⟩

/-- **One operation keeps the invariant**, whether it is refused or not. -/
theorem Sound.perform (h : e.Sound) (op : Operation α)
    (hmade : ∀ v, op = .addOutput v → v.Sound) : (e.perform op).Sound := by
  refine perform_induction h op fun e' hop => ?_
  cases op with
  | addInput v => exact h.addInput hop
  | addOutput v => exact h.addOutput (hmade v rfl) hop
  | addBlock b => exact h.addBlock hop
  | setInput name value => exact h.setInput hop
  | process => exact h.process hop
  | restart =>
    cases hop
    exact h.restart

theorem sound_new (name : String) : (new name : Engine α).Sound :=
  ⟨List.nodup_nil, fun _ hb => absurd hb List.not_mem_nil, fun _ hv => absurd hv List.not_mem_nil⟩

mutual

/-- **Every reachable engine keeps the invariant.** -/
theorem Reachable.sound {e : Engine α} : Reachable e → e.Sound
  | .new name => sound_new name
  | .perform h op hmade => h.sound.perform op fun v hv => (hmade v hv).sound

theorem MadeOutput.sound {v : Output α} : MadeOutput v → v.Sound
  | .new h => .of_new h
  | .copied h hv => h.sound.outputs v hv
  | .withTerm h t => h.sound.withTerm t
  | .configured h _ _ _ => ⟨h.sound.range, h.sound.activations⟩

end

end Engine

/-! ## §5. What the checked constructors make. -/

/-- A shape that passes its check passes unchanged. -/
theorem Shape.check_of_isOk {s : Shape α} (h : s.check.isOk = true) : s.check = .ok s := by
  cases s with
  | ramp start stop =>
    unfold check at h ⊢
    dsimp only at h ⊢
    split at h
    · cases h
    · next hfinite =>
      rw [if_neg hfinite]
      split at h
      · cases h
      · next hdistinct => rw [if_neg hdistinct]
  | triangle left apex right =>
    unfold check at h ⊢
    dsimp only at h ⊢
    split at h
    · cases h
    · next hfinite =>
      rw [if_neg hfinite]
      split at h
      · next hordered => rw [if_pos hordered]
      · cases h

/-- A proper name and a proper shape make the term that they say. -/
theorem Term.new_of_isOk {name : String} {shape : Shape α} (hname : checkName name = .ok name)
    (hshape : shape.check.isOk = true) : Term.new name shape = .ok ⟨name, shape⟩ := by
  unfold Term.new
  rw [hname, Shape.check_of_isOk hshape]
  rfl

theorem Input.new_of_ok {name : String} {minimum maximum : α} (hname : checkName name = .ok name)
    (hrange : checkRange minimum maximum = .ok ()) :
    Input.new name minimum maximum = .ok ⟨name, minimum, maximum, [], Scalar.nan⟩ := by
  unfold Input.new
  rw [hname, hrange]
  rfl

theorem Output.new_of_ok {name : String} {minimum maximum : α} (hname : checkName name = .ok name)
    (hrange : checkRange minimum maximum = .ok ()) :
    Output.new name minimum maximum
      = .ok ⟨name, minimum, maximum, [], .maximum, .standard, Scalar.nan, [], Scalar.nan⟩ := by
  unfold Output.new
  rw [hname, hrange]
  rfl

end CapacityControl.Fuzzy
