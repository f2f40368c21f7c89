/-
  CapacityControl.Proofs.Fuzzy.Bounds
  ───────────────────────────────────
  EVERY ACCESS IS INSIDE.  The evaluation of an engine looks up variables and terms by
  their places.  Here it is written down once more, step by step and in the order in
  which outputs are cleared, filled and read, so that a look-up at a place that does not
  exist leaves no result (`Engine.process?`).  On a sound engine there always is a
  result, and it is that of `Engine.process` (`Engine.Sound.process?`); since every
  reachable engine is sound, `reachable_in_bounds` follows.
-/
import CapacityControl.Proofs.Fuzzy.Assembly
import CapacityControl.Proofs.Fuzzy.Condition
import CapacityControl.Scalar.Extended

namespace CapacityControl.Fuzzy

variable {α : Type} [Scalar α]

/-! ## §1. Evaluation that stops at a place that does not exist. -/

/-- The degree of `x` in the term at an index, if there is one. -/
def membershipAt? (terms : List (Term α)) (index : Nat) (x : α) : Option α :=
  terms[index]?.map (·.membership x)

/-- The degree of a proposition, if its variable and its term exist. -/
def Proposition.degree? (p : Proposition) (inputs : List (Input α)) : Option α := do
  let v ← inputs[p.var]?
  let mu ← membershipAt? v.terms p.term v.value
  some (if p.negated then 1.0 - mu else mu)

/-- **The degree of a condition**, if whatever it mentions exists. -/
def Condition.degree? (inputs : List (Input α)) (conjunction : TNorm) (disjunction : SNorm) :
    Condition → Option α
  | prop p => p.degree? inputs
  | and l r => do
    let left ← l.degree? inputs conjunction disjunction
    let right ← r.degree? inputs conjunction disjunction
    some (conjunction.apply left right)
  | or l r => do
    let left ← l.degree? inputs conjunction disjunction
    let right ← r.degree? inputs conjunction disjunction
    some (disjunction.apply left right)

/-- Moment and area of a membership function that may be without result. -/
def Centroid.integrate? (membership : α → Option α) (minimum width : α) : Nat → Option (α × α)
  | 0 => some (0.0, 0.0)
  | n + 1 => do
    let (moment, area) ← integrate? membership minimum width n
    let x := midpoint minimum width n
    let y ← membership x
    some (moment + x * y, area + y)

/-- The centre of mass of a membership function that may be without result. -/
def Centroid.centre? (c : Centroid) (membership : α → Option α) (minimum maximum : α) :
    Option α := do
  let (moment, area) ← integrate? membership minimum (c.cellWidth minimum maximum) c.resolution
  some (if area == 0.0 then Scalar.nan else moment / area)

namespace Output

/-- **The degree of `x` in the union of the activated terms**, if all of them exist. -/
def aggregated? (v : Output α) (x : α) : Option α :=
  v.activations.foldlM (fun degree a => do
    let mu ← membershipAt? v.terms a.term x
    some (v.aggregation.apply degree (a.implication.apply a.degree mu))) 0.0

/-- The output with its value, if all terms that are activated exist. -/
def defuzzified? (v : Output α) : Option (Output α) :=
  if v.activations.isEmpty then some { v with value := v.fallback }
  else do
    let value ← v.centroid.centre? v.aggregated? v.minimum v.maximum
    some { v with value := value }

/-- The output with more activations. -/
def activated (v : Output α) (as : List (Activation α)) : Output α :=
  { v with activations := v.activations ++ as }

end Output

/-- Adds an activation to the output at an index, if there is one. -/
def activate? (outputs : List (Output α)) (index : Nat) (a : Activation α) :
    Option (List (Output α)) := do
  let v ← outputs[index]?
  some (outputs.set index (v.activated [a]))

/-- What one rule of the block adds to the outputs, if whatever it refers to exists. -/
def RuleBlock.fire? (b : RuleBlock α) (inputs : List (Input α)) (outputs : List (Output α))
    (r : Rule α) : Option (List (Output α)) := do
  let degree ← r.condition.degree? inputs b.conjunction b.disjunction
  let weighted := r.weight * degree
  if 0.0 < weighted then
    r.consequents.foldlM (fun outputs c => activate? outputs c.var ⟨c.term, weighted, b.implication⟩)
      outputs
  else some outputs

/-- **One inference, step by step**: the outputs are cleared, filled rule by rule, and read. -/
def Engine.process? (e : Engine α) : Option (Except (Error α) (Engine α)) :=
  match e.missing? with
  | some m => some (.error (.notReady m))
  | none =>
    match e.inputs.find? (!·.isSet) with
    | some v => some (.error (.notFiniteInput v.name v.value))
    | none => do
      let filled ← e.blocks.foldlM (fun outputs b => b.rules.foldlM (b.fire? e.inputs) outputs)
        (e.outputs.map Output.cleared)
      let read ← filled.mapM Output.defuzzified?
      some (.ok { e with outputs := read })

/-! ## §2. Degrees. -/

theorem membershipAt?_eq {terms : List (Term α)} {index : Nat} (h : index < terms.length) (x : α) :
    membershipAt? terms index x = some (membershipAt terms index x) := by
  unfold membershipAt? membershipAt
  rw [List.getElem?_eq_getElem h]
  rfl

theorem Proposition.degree?_eq {p : Proposition} {inputs : List (Input α)}
    (h : p.Inside (inputs.map (·.terms))) : p.degree? inputs = some (p.degree inputs) := by
  obtain ⟨terms, hvar, hterm⟩ := h
  rw [List.getElem?_map, Option.map_eq_some_iff] at hvar
  obtain ⟨v, hvar, rfl⟩ := hvar
  unfold degree? degree
  rw [hvar]
  show (membershipAt? v.terms p.term v.value >>= _) = _
  rw [membershipAt?_eq hterm]
  rfl

/-- **A condition has a degree** if whatever it mentions exists, by induction over its tree. -/
theorem Condition.degree?_eq {inputs : List (Input α)} (conjunction : TNorm) (disjunction : SNorm)
    {c : Condition} (h : ∀ p, c.Mentions p → p.Inside (inputs.map (·.terms))) :
    c.degree? inputs conjunction disjunction = some (c.degree inputs conjunction disjunction) := by
  induction c with
  | prop p => exact Proposition.degree?_eq (h p .prop)
  | and l r ihl ihr =>
    unfold degree? degree
    rw [ihl fun p hp => h p (.andLeft hp), ihr fun p hp => h p (.andRight hp)]
    rfl
  | or l r ihl ihr =>
    unfold degree? degree
    rw [ihl fun p hp => h p (.orLeft hp), ihr fun p hp => h p (.orRight hp)]
    rfl

/-! ## §3. Outputs. -/

/-- Steps that all have a result come to the result of the steps without failure. -/
theorem foldlM_eq_some {β γ : Type} {f : β → γ → Option β} {g : β → γ → β} {l : List γ}
    (h : ∀ c ∈ l, ∀ b, f b c = some (g b c)) (b : β) : l.foldlM f b = some (l.foldl g b) := by
  induction l generalizing b with
  | nil => rfl
  | cons c l ih =>
    obtain ⟨hc, hl⟩ := List.forall_mem_cons.mp h
    rw [List.foldlM_cons, hc]
    exact ih hl _

theorem mapM_eq_some {β γ : Type} {f : β → Option γ} {g : β → γ} {l : List β}
    (h : ∀ b ∈ l, f b = some (g b)) : l.mapM f = some (l.map g) := by
  induction l with
  | nil => rfl
  | cons b l ih =>
    obtain ⟨hb, hl⟩ := List.forall_mem_cons.mp h
    rw [List.mapM_cons, hb, ih hl]
    rfl

theorem Centroid.integrate?_eq {f : α → Option α} {g : α → α} (h : ∀ x, f x = some (g x))
    (minimum width : α) (n : Nat) :
    integrate? f minimum width n = some (integrate g minimum width n) := by
  induction n with
  | zero => rfl
  | succ n ih =>
    unfold integrate?
    rw [ih]
    show (f (midpoint minimum width n) >>= _) = _
    rw [h]
    unfold integrate
    rw [Nat.fold_succ]
    rfl

namespace Output

variable {v : Output α}

theorem aggregated?_eq (h : ∀ a ∈ v.activations, a.term < v.terms.length) (x : α) :
    v.aggregated? x = some (v.aggregated x) := by
  unfold aggregated? aggregated
  refine foldlM_eq_some (fun a ha degree => ?_) _
  rw [membershipAt?_eq (h a ha)]
  rfl

theorem defuzzified?_eq (h : ∀ a ∈ v.activations, a.term < v.terms.length) :
    v.defuzzified? = some v.defuzzified := by
  unfold defuzzified? defuzzified
  by_cases hnone : v.activations.isEmpty = true
  · rw [if_pos hnone, if_pos hnone]
  · rw [if_neg hnone, if_neg hnone]
    unfold Centroid.centre? Centroid.centre
    rw [Centroid.integrate?_eq (aggregated?_eq h)]
    rfl

end Output

/-! ## §4. Filling the outputs. -/

/-- The outputs with the activations of some firing rules added. -/
def deliver (outputs : List (Output α)) (fs : List (Firing α)) : List (Output α) :=
  outputs.mapIdx fun i v => v.activated (activationsOf i fs)

omit [Scalar α] in
@[simp] theorem length_deliver (outputs : List (Output α)) (fs : List (Firing α)) :
    (deliver outputs fs).length = outputs.length := List.length_mapIdx

omit [Scalar α] in
theorem deliver_nil (outputs : List (Output α)) : deliver outputs [] = outputs := by
  have hnone : (fun (i : Nat) (v : Output α) => v.activated (activationsOf i []))
      = fun _ v => v := by
    funext i v
    show { v with activations := v.activations ++ [] } = v
    rw [List.append_nil]
  unfold deliver
  rw [hnone]
  exact List.ext_getElem (by simp) fun i hi hi' => by simp

omit [Scalar α] in
/-- What is delivered in two parts is delivered in one. -/
theorem deliver_append (outputs : List (Output α)) (fs gs : List (Firing α)) :
    deliver (deliver outputs fs) gs = deliver outputs (fs ++ gs) := by
  unfold deliver
  rw [List.mapIdx_mapIdx]
  congr 1
  funext i v
  show { v with activations := (v.activations ++ activationsOf i fs) ++ activationsOf i gs } = _
  rw [List.append_assoc, activationsOf, activationsOf, ← List.flatMap_append]
  rfl

omit [Scalar α] in
/-- The consequents of a rule may as well be those of one rule each. -/
theorem activationsOf_each (i : Nat) (degree : α) (implication : TNorm) (cs : List Proposition) :
    activationsOf i (cs.flatMap fun c => [⟨degree, implication, [c]⟩])
      = activationsOf i [⟨degree, implication, cs⟩] := by
  unfold activationsOf
  induction cs with
  | nil => rfl
  | cons c cs ih =>
    rw [List.flatMap_cons, List.flatMap_append, ih]
    by_cases hc : c.var == i
    · simp [hc]
    · simp [hc]

omit [Scalar α] in
/-- The consequents of a rule can be delivered one at a time. -/
theorem deliver_each (degree : α) (implication : TNorm) (cs : List Proposition)
    (outputs : List (Output α)) :
    deliver outputs (cs.flatMap fun c => [⟨degree, implication, [c]⟩])
      = deliver outputs [⟨degree, implication, cs⟩] := by
  unfold deliver
  simp only [activationsOf_each]

omit [Scalar α] in
/-- A single consequent is delivered to the output that it is about. -/
theorem activate?_eq {outputs : List (Output α)} (degree : α) (implication : TNorm)
    {c : Proposition} (h : c.var < outputs.length) :
    activate? outputs c.var ⟨c.term, degree, implication⟩
      = some (deliver outputs [⟨degree, implication, [c]⟩]) := by
  unfold activate?
  rw [List.getElem?_eq_getElem h]
  refine congrArg some (List.ext_getElem (by simp) fun i hi hi' => ?_)
  rw [List.getElem_set]
  simp only [deliver, List.getElem_mapIdx]
  by_cases heq : c.var = i
  · subst heq
    simp [activationsOf]
  · simp [activationsOf, heq, Output.activated]

omit [Scalar α] in
/-- The consequents of a rule are delivered one after the other. -/
theorem foldlM_activate? (degree : α) (implication : TNorm) (cs : List Proposition)
    {outputs : List (Output α)} (h : ∀ c ∈ cs, c.var < outputs.length) :
    cs.foldlM (fun outputs c => activate? outputs c.var ⟨c.term, degree, implication⟩) outputs
      = some (deliver outputs [⟨degree, implication, cs⟩]) := by
  induction cs generalizing outputs with
  | nil => exact congrArg some (deliver_nil outputs).symm
  | cons c cs ih =>
    obtain ⟨hc, hcs⟩ := List.forall_mem_cons.mp h
    rw [List.foldlM_cons, activate?_eq degree implication hc]
    refine (ih fun c' hc' => ?_).trans (congrArg some ?_)
    · rw [length_deliver]
      exact hcs c' hc'
    · rw [← deliver_each, deliver_append, ← deliver_each]
      rfl

/-- The rule of the block, if it fires. -/
def RuleBlock.firing? (b : RuleBlock α) (inputs : List (Input α)) (r : Rule α) :
    Option (Firing α) :=
  if 0.0 < b.degreeOf inputs r then some ⟨b.degreeOf inputs r, b.implication, r.consequents⟩
  else none

theorem RuleBlock.firings_eq (b : RuleBlock α) (inputs : List (Input α)) :
    b.firings inputs = b.rules.filterMap (b.firing? inputs) := rfl

/-- A rule delivers its consequents if it fires, and nothing if it does not. -/
theorem RuleBlock.fire?_eq (b : RuleBlock α) {inputs : List (Input α)} {outputs : List (Output α)}
    {r : Rule α} (hcondition : ∀ p, r.condition.Mentions p → p.Inside (inputs.map (·.terms)))
    (hconsequents : ∀ c ∈ r.consequents, c.var < outputs.length) :
    b.fire? inputs outputs r = some (deliver outputs (b.firing? inputs r).toList) := by
  unfold fire? firing?
  rw [Condition.degree?_eq _ _ hcondition]
  show (if 0.0 < b.degreeOf inputs r then _ else _) = _
  by_cases hpos : 0.0 < b.degreeOf inputs r
  · rw [if_pos hpos, if_pos hpos]
    exact foldlM_activate? _ _ _ hconsequents
  · rw [if_neg hpos, if_neg hpos]
    exact congrArg some (deliver_nil outputs).symm

/-- The rules of a block deliver the consequents of those that fire. -/
theorem RuleBlock.foldlM_fire? (b : RuleBlock α) {inputs : List (Input α)}
    {outputs : List (Output α)} {rules : List (Rule α)}
    (hconditions : ∀ r ∈ rules, ∀ p, r.condition.Mentions p → p.Inside (inputs.map (·.terms)))
    (hconsequents : ∀ r ∈ rules, ∀ c ∈ r.consequents, c.var < outputs.length) :
    rules.foldlM (b.fire? inputs) outputs
      = some (deliver outputs (rules.filterMap (b.firing? inputs))) := by
  induction rules generalizing outputs with
  | nil => exact congrArg some (deliver_nil outputs).symm
  | cons r rules ih =>
    obtain ⟨hcondition, hconditions⟩ := List.forall_mem_cons.mp hconditions
    obtain ⟨hconsequent, hconsequents⟩ := List.forall_mem_cons.mp hconsequents
    rw [List.foldlM_cons, b.fire?_eq hcondition hconsequent]
    refine (ih hconditions fun r' hr' c hc => ?_).trans (congrArg some ?_)
    · rw [length_deliver]
      exact hconsequents r' hr' c hc
    · rw [deliver_append, List.filterMap_cons]
      cases b.firing? inputs r with
      | none => rfl
      | some f => rfl

/-- All blocks deliver the consequents of their rules that fire. -/
theorem foldlM_blocks {blocks : List (RuleBlock α)} {inputs : List (Input α)}
    {outputs : List (Output α)}
    (hconditions : ∀ b ∈ blocks, ∀ r ∈ b.rules, ∀ p, r.condition.Mentions p →
      p.Inside (inputs.map (·.terms)))
    (hconsequents : ∀ b ∈ blocks, ∀ r ∈ b.rules, ∀ c ∈ r.consequents, c.var < outputs.length) :
    blocks.foldlM (fun outputs b => b.rules.foldlM (b.fire? inputs) outputs) outputs
      = some (deliver outputs (blocks.flatMap (·.firings inputs))) := by
  induction blocks generalizing outputs with
  | nil => exact congrArg some (deliver_nil outputs).symm
  | cons b blocks ih =>
    obtain ⟨hcondition, hconditions⟩ := List.forall_mem_cons.mp hconditions
    obtain ⟨hconsequent, hconsequents⟩ := List.forall_mem_cons.mp hconsequents
    rw [List.foldlM_cons, b.foldlM_fire? hcondition hconsequent]
    refine (ih hconditions fun b' hb' r hr c hc => ?_).trans (congrArg some ?_)
    · rw [length_deliver]
      exact hconsequents b' hb' r hr c hc
    · rw [deliver_append, List.flatMap_cons, b.firings_eq]

/-! ## §5. Sound engines. -/

namespace Engine

variable {e : Engine α}

omit [Scalar α] in
/-- The consequents of grounded rules are about outputs that exist. -/
theorem Grounds.var_lt {r : Rule α} (h : e.Grounds r) {c : Proposition} (hc : c ∈ r.consequents) :
    c.var < e.outputs.length := by
  obtain ⟨terms, hvar, _⟩ := h.consequents c hc
  rw [outputTerms, List.getElem?_map, Option.map_eq_some_iff] at hvar
  obtain ⟨v, hvar, _⟩ := hvar
  exact (List.getElem?_eq_some_iff.mp hvar).1

/-- Cleared outputs that are filled and read are the inferred ones. -/
theorem map_deliver_cleared (e : Engine α) :
    (deliver (e.outputs.map Output.cleared) e.firings).map Output.defuzzified = e.inferred := by
  refine List.ext_getElem? fun i => ?_
  unfold deliver inferred
  rw [List.getElem?_map, List.getElem?_mapIdx, List.getElem?_map, List.getElem?_mapIdx]
  cases e.outputs[i]? with
  | none => rfl
  | some v => rfl

/-- What is delivered to the outputs of a sound engine are activations of their terms. -/
theorem Sound.term_lt_of_mem_deliver (h : e.Sound) {v : Output α}
    (hv : v ∈ deliver (e.outputs.map Output.cleared) e.firings) :
    ∀ a ∈ v.activations, a.term < v.terms.length := by
  obtain ⟨i, hi, rfl⟩ := List.mem_mapIdx.mp hv
  rw [List.length_map] at hi
  intro a ha
  rw [List.getElem_map] at ha ⊢
  exact h.term_lt_of_mem_activationsOf hi ha

/-- **On a sound engine every access of an inference is inside**, and step by step the inference
comes to the same result. -/
theorem Sound.process? (h : e.Sound) : e.process? = some e.process := by
  unfold Engine.process? Engine.process
  cases e.missing? with
  | some m => rfl
  | none =>
    cases e.inputs.find? (!·.isSet) with
    | some v => rfl
    | none =>
      have hfilled : e.blocks.foldlM
          (fun outputs b => b.rules.foldlM (b.fire? e.inputs) outputs)
          (e.outputs.map Output.cleared)
            = some (deliver (e.outputs.map Output.cleared) e.firings) := by
        refine foldlM_blocks (fun b hb r hr => (h.rules b hb r hr).condition)
          fun b hb r hr c hc => ?_
        rw [List.length_map]
        exact (h.rules b hb r hr).var_lt hc
      have hread : (deliver (e.outputs.map Output.cleared) e.firings).mapM Output.defuzzified?
          = some ((deliver (e.outputs.map Output.cleared) e.firings).map Output.defuzzified) :=
        mapM_eq_some fun v hv => Output.defuzzified?_eq (h.term_lt_of_mem_deliver hv)
      show (e.blocks.foldlM _ _ >>= _) = _
      rw [hfilled]
      show ((deliver _ e.firings).mapM Output.defuzzified? >>= _) = _
      rw [hread, map_deliver_cleared]
      rfl

/-- What an addition needs in order not to be refused. -/
def Accepts (e : Engine α) : Operation α → Prop
  | .addInput v => v.name ∉ e.names
  | .addOutput v => v.name ∉ e.names
  | .addBlock b => ∀ r ∈ b.rules, e.Grounds r
  | .setInput _ _ | .process | .restart => True

/-- An addition is refused exactly if the engine lacks what it needs. -/
theorem exists_attempt_ok_iff (e : Engine α) {op : Operation α} (hadds : op.adds = true) :
    (∃ e', e.attempt op = .ok e') ↔ e.Accepts op := by
  cases op with
  | addInput v => exact ⟨fun ⟨_, h⟩ => ((addInput_ok_iff v).mp h).1,
      fun h => ⟨_, (addInput_ok_iff v).mpr ⟨h, rfl⟩⟩⟩
  | addOutput v => exact ⟨fun ⟨_, h⟩ => ((addOutput_ok_iff v).mp h).1,
      fun h => ⟨_, (addOutput_ok_iff v).mpr ⟨h, rfl⟩⟩⟩
  | addBlock b => exact ⟨fun ⟨_, h⟩ => ((addBlock_ok_iff b).mp h).1,
      fun h => ⟨_, (addBlock_ok_iff b).mpr ⟨h, rfl⟩⟩⟩
  | setInput name value => cases hadds
  | process => cases hadds
  | restart => cases hadds

/-- A refused addition leaves the engine as it was. -/
theorem perform_eq_self_of_not_accepts (e : Engine α) {op : Operation α} (hadds : op.adds = true)
    (hrefused : ¬e.Accepts op) : (∃ error, e.attempt op = .error error) ∧ e.perform op = e := by
  unfold perform
  cases hop : e.attempt op with
  | ok e' => exact absurd ((exists_attempt_ok_iff e hadds).mp ⟨e', hop⟩) hrefused
  | error error => exact ⟨⟨error, rfl⟩, rfl⟩

/-- **What every engine has that came about by operations**, refused ones among them.  The names
of its variables are different; whatever a stored rule mentions or concludes, and whatever is
activated, is there; so every access of an inference, of the degree of a stored rule and of an
aggregated membership is inside.  An addition is refused exactly if a name is taken or a rule
refers to what is not there, and then changes nothing. -/
theorem reachable_in_bounds {e : Engine α} (h : Reachable e) :
    e.names.Nodup
      ∧ (∀ b ∈ e.blocks, ∀ r ∈ b.rules, e.Grounds r)
      ∧ (∀ v ∈ e.outputs, ∀ a ∈ v.activations, a.term < v.terms.length)
      ∧ e.process? = some e.process
      ∧ (∀ b ∈ e.blocks, ∀ r ∈ b.rules, ∀ conjunction disjunction,
          r.condition.degree? e.inputs conjunction disjunction
            = some (r.condition.degree e.inputs conjunction disjunction))
      ∧ (∀ v ∈ e.outputs, ∀ x, v.aggregated? x = some (v.aggregated x))
      ∧ ∀ op, op.adds = true → ((∃ e', e.attempt op = .ok e') ↔ e.Accepts op)
          ∧ (¬e.Accepts op → e.perform op = e) := by
  have hsound := h.sound
  refine ⟨hsound.names, hsound.rules, fun v hv => (hsound.outputs v hv).activations,
    hsound.process?, fun b hb r hr conjunction disjunction => ?_, fun v hv x => ?_,
    fun op hadds => ⟨exists_attempt_ok_iff e hadds, fun hrefused => ?_⟩⟩
  · exact Condition.degree?_eq conjunction disjunction (hsound.rules b hb r hr).condition
  · exact Output.aggregated?_eq (hsound.outputs v hv).activations x
  · exact (perform_eq_self_of_not_accepts e hadds hrefused).2

section Assembled

/-- An output for trials, aggregating by the sum over four cells. -/
def assembledOutput (name : String) : Output Extended :=
  ⟨name, 0.0, 1.0, [⟨"UP", .ramp 0.0 1.0⟩], .algebraicSum, ⟨4⟩, 0.5, [], Scalar.nan⟩

theorem madeOutput_assembledOutput {name : String} (hname : RuleText.IsName name) :
    MadeOutput (assembledOutput name) := by
  have hnew : Output.new name (0.0 : Extended) 1.0
      = .ok ⟨name, 0.0, 1.0, [], .maximum, .standard, Scalar.nan, [], Scalar.nan⟩ := by
    exact Output.new_of_ok hname (if_pos (by decide +kernel))
  exact ((MadeOutput.new hnew).withTerm ⟨"UP", .ramp 0.0 1.0⟩).configured .algebraicSum ⟨4⟩ 0.5

/-- A rule for trials that was never read: a negation of one input below a disjunction with
another. -/
def assembledRule (var : Nat) : Rule Extended :=
  ⟨"", .or (.prop ⟨0, 0, true⟩) (.prop ⟨var, 0, false⟩), [⟨0, 0, false⟩], 1.0⟩

/-- Operations that build an engine.  Those in between are refused: a block that refers to an
input beyond the last, and an output under the name of an input. -/
def assembly : List (Operation Extended) :=
  [.addInput ⟨"A", 0.0, 1.0, [⟨"HIGH", .ramp 0.0 1.0⟩], Scalar.nan⟩,
    .addOutput (assembledOutput "Y"),
    .addBlock ⟨"known", .minimum, .maximum, .algebraicProduct, [assembledRule 0]⟩,
    .addBlock ⟨"unknown", .minimum, .maximum, .minimum, [assembledRule 0, assembledRule 1]⟩,
    .addOutput (assembledOutput "A"), .setInput "A" 0.75, .process]

/-- The engine that these operations build. -/
def assembled : Engine Extended := assembly.foldl perform (new "assembled")

theorem reachable_assembled : Reachable assembled := by
  refine (Reachable.new "assembled").foldl_perform assembly fun v hv => ?_
  have hnames : v = assembledOutput "Y" ∨ v = assembledOutput "A" := by
    simpa [assembly] using hv
  rcases hnames with rfl | rfl
  · exact madeOutput_assembledOutput (by decide +kernel)
  · exact madeOutput_assembledOutput (by decide +kernel)

/-- The refused operations leave nothing behind, the accepted rule fires, and all that it reaches
is there. -/
theorem assembled_in_bounds : Reachable assembled ∧ assembled.names = ["A", "Y"]
    ∧ assembled.blocks.map (·.rules.length) = [1]
    ∧ assembled.outputs.map (·.activations.map (·.term)) = [[0]]
    ∧ assembled.process? = some assembled.process := by
  have hbounds := reachable_in_bounds reachable_assembled
  refine ⟨reachable_assembled, by decide +kernel, by decide +kernel, by decide +kernel, ?_⟩
  exact hbounds.2.2.2.1

end Assembled

end Engine

end CapacityControl.Fuzzy
