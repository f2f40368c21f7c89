/-
  CapacityControl.Proofs.Fuzzy.Rearranging
  ────────────────────────────────────────
  ORDER DOES NOT MATTER, AND SILENT RULES ARE NEUTRAL, exactly.  On degrees a conorm is
  commutative and associative, and nothing is its unit (`SNorm.foldl_perm`,
  `SNorm.foldl_filter`).  So the union of what the rules conclude is the same over the rules
  that fire and over all of them (`Output.aggregated_filter`), and no rearrangement of the rules
  that keeps what they conclude together is seen in an output
  (`Rearranges.activationsOf_perm`).  Together: `process_rearranged`.
-/
import CapacityControl.Proofs.Fuzzy.Inference
import Mathlib.Logic.Relation

namespace CapacityControl.Fuzzy

open Extended (finite)

/-! ## §1. Conorms over lists. -/

namespace SNorm

section Laws

variable (s : SNorm) {x y z : Extended}

theorem apply_comm (hx : Scalar.inUnit x = true) (hy : Scalar.inUnit y = true) :
    s.apply x y = s.apply y x := by
  obtain ⟨a, rfl, _⟩ := inUnit_iff.mp hx
  obtain ⟨b, rfl, _⟩ := inUnit_iff.mp hy
  cases s with
  | maximum => simp [apply, max_comm]
  | algebraicSum =>
    simp only [apply, Extended.finite_mul, Extended.finite_add, Extended.finite_sub]
    congr 1
    ring

theorem apply_assoc (hx : Scalar.inUnit x = true) (hy : Scalar.inUnit y = true)
    (hz : Scalar.inUnit z = true) : s.apply (s.apply x y) z = s.apply x (s.apply y z) := by
  obtain ⟨a, rfl, _⟩ := inUnit_iff.mp hx
  obtain ⟨b, rfl, _⟩ := inUnit_iff.mp hy
  obtain ⟨c, rfl, _⟩ := inUnit_iff.mp hz
  cases s with
  | maximum => simp [apply, max_assoc]
  | algebraicSum =>
    simp only [apply, Extended.finite_mul, Extended.finite_add, Extended.finite_sub]
    congr 1
    ring

/-- Nothing is the unit. -/
theorem apply_zero (hx : Scalar.inUnit x = true) : s.apply x 0.0 = x := by
  obtain ⟨a, rfl, hnonneg, _⟩ := inUnit_iff.mp hx
  rw [Extended.zero_eq]
  cases s with
  | maximum => simp [apply, hnonneg]
  | algebraicSum => simp [apply]

theorem apply_right_comm (hx : Scalar.inUnit x = true) (hy : Scalar.inUnit y = true)
    (hz : Scalar.inUnit z = true) : s.apply (s.apply x y) z = s.apply (s.apply x z) y :=
  calc s.apply (s.apply x y) z = s.apply x (s.apply y z) := s.apply_assoc hx hy hz
    _ = s.apply x (s.apply z y) := by rw [s.apply_comm hy hz]
    _ = s.apply (s.apply x z) y := (s.apply_assoc hx hz hy).symm

end Laws

section Folds

variable (s : SNorm) {β : Type} {f : β → Extended} {l l' : List β} {z : Extended}

/-- **The order of degrees does not matter** to their union, by induction on the permutation. -/
theorem foldl_perm (hperm : l.Perm l') (hf : ∀ b ∈ l, Scalar.inUnit (f b) = true)
    (hz : Scalar.inUnit z = true) :
    l.foldl (fun degree b => s.apply degree (f b)) z
      = l'.foldl (fun degree b => s.apply degree (f b)) z := by
  induction hperm generalizing z with
  | nil => rfl
  | cons b _ ih =>
    obtain ⟨hb, hl⟩ := List.forall_mem_cons.mp hf
    exact ih hl (s.apply_inUnit hz hb)
  | swap b c l =>
    -- What was joined before stays in front; it is a degree, so the laws apply to it.
    obtain ⟨hc, hl⟩ := List.forall_mem_cons.mp hf
    have hb := hl b List.mem_cons_self
    rw [List.foldl_cons, List.foldl_cons, List.foldl_cons, List.foldl_cons,
      s.apply_right_comm hz hc hb]
  | trans hfirst _ ih ih' =>
    exact (ih hf hz).trans (ih' (fun b hb => hf b (hfirst.mem_iff.mpr hb)) hz)

/-- **Degrees of zero** may be left out of a union, by induction on the list. -/
theorem foldl_filter {p : β → Bool} (hf : ∀ b ∈ l, Scalar.inUnit (f b) = true)
    (hzero : ∀ b ∈ l, p b = false → f b = 0.0) (hz : Scalar.inUnit z = true) :
    (l.filter p).foldl (fun degree b => s.apply degree (f b)) z
      = l.foldl (fun degree b => s.apply degree (f b)) z := by
  induction l generalizing z with
  | nil => rfl
  | cons b l ih =>
    obtain ⟨hb, hl⟩ := List.forall_mem_cons.mp hf
    obtain ⟨hzerob, hzerol⟩ := List.forall_mem_cons.mp hzero
    cases hp : p b with
    | true =>
      rw [List.filter_cons_of_pos hp]
      exact ih hl hzerol (s.apply_inUnit hz hb)
    | false =>
      rw [List.filter_cons_of_neg (by simp [hp]), List.foldl_cons, hzerob hp, s.apply_zero hz]
      exact ih hl hzerol hz

end Folds

end SNorm

/-- Together with nothing there is nothing. -/
theorem TNorm.zero_apply (t : TNorm) {x : Extended} (hx : Scalar.inUnit x = true) :
    t.apply 0.0 x = 0.0 := by
  obtain ⟨a, rfl, hnonneg, _⟩ := inUnit_iff.mp hx
  rw [Extended.zero_eq]
  cases t with
  | minimum => simp [apply, hnonneg]
  | algebraicProduct => simp [apply]

/-! ## §2. Outputs. -/

namespace Output

variable {v : Output Extended}

/-- **The order of activations** does not matter to the aggregated memberships. -/
theorem aggregated_perm (h : v.IsActivated) {as : List (Activation Extended)}
    (hperm : v.activations.Perm as) {x : Extended} (hx : Scalar.isNaN x = false) :
    ({ v with activations := as } : Output Extended).aggregated x = v.aggregated x :=
  (v.aggregation.foldl_perm hperm (fun _ ha => impliedMembership_inUnit h hx ha)
    (by decide +kernel)).symm

/-- **Activations to no degree** do not matter to them either. -/
theorem aggregated_filter (h : v.IsActivated) {x : Extended} (hx : Scalar.isNaN x = false) :
    ({ v with activations := v.activations.filter fun a => decide (0.0 < a.degree) } :
      Output Extended).aggregated x = v.aggregated x := by
  refine v.aggregation.foldl_filter (fun _ ha => impliedMembership_inUnit h hx ha)
    (fun a ha hsilent => ?_) (by decide +kernel)
  have hterm := h.sound.activations a ha
  have hzero : a.degree = 0.0 := by
    obtain ⟨q, hq, hnonneg, _⟩ := inUnit_iff.mp (h.degrees a ha)
    rw [decide_eq_false_iff_not, hq, Extended.zero_eq, Extended.finite_lt, not_lt] at hsilent
    rw [hq, Extended.zero_eq, le_antisymm hsilent hnonneg]
  unfold impliedMembership membershipAt
  rw [List.getElem?_eq_getElem hterm, hzero]
  exact a.implication.zero_apply ((h.terms _ (List.getElem_mem hterm)).membership_inUnit hx)

/-- **Nor does the order matter to the value**, which is read off the memberships. -/
theorem value_perm (h : v.IsActivated) {as : List (Activation Extended)}
    (hperm : v.activations.Perm as) :
    ({ v with activations := as } : Output Extended).defuzzified.value = v.defuzzified.value := by
  obtain ⟨f, hf, _⟩ := exists_aggregated h
  obtain ⟨lo, hi, hmin, hmax, _⟩ := h.sound.exists_range
  -- The centre is that of the rational memberships, for both.
  have hcentre : ∀ membership, (∀ x, membership (finite x) = finite (f x)) →
      v.centroid.centre membership v.minimum v.maximum
        = if v.centroid.area f lo hi = 0 then .nan else finite (v.centroid.centroid f lo hi) := by
    intro membership hmembership
    rw [hmin, hmax, Centroid.centre_finite _ hmembership]
  unfold defuzzified
  rw [hperm.isEmpty_eq]
  by_cases hnone : as.isEmpty = true
  · rw [if_pos hnone, if_pos hnone]
  · rw [if_neg hnone, if_neg hnone]
    refine (hcentre _ fun x => ?_).trans (hcentre _ hf).symm
    exact (aggregated_perm h hperm (Extended.isNaN_finite x)).trans (hf x)

end Output

/-! ## §3. What rules conclude. -/

section Conclusions

variable {α : Type} [Scalar α] {inputs : List (Input α)}

/-- What a rule of the block concludes about the output at an index, whether it fires or not. -/
def RuleBlock.conclusions (b : RuleBlock α) (inputs : List (Input α)) (i : Nat) (r : Rule α) :
    List (Activation α) :=
  (r.consequents.filter (·.var == i)).map fun c => ⟨c.term, b.degreeOf inputs r, b.implication⟩

/-- **What all rules conclude about the output at an index**, whether they fire or not. -/
def conclusions (inputs : List (Input α)) (blocks : List (RuleBlock α)) (i : Nat) :
    List (Activation α) :=
  blocks.flatMap fun b => b.rules.flatMap (b.conclusions inputs i)

theorem RuleBlock.filter_conclusions (b : RuleBlock α) (i : Nat) (r : Rule α) :
    (b.conclusions inputs i r).filter (fun a => decide (0.0 < a.degree))
      = if 0.0 < b.degreeOf inputs r then b.conclusions inputs i r else [] := by
  unfold conclusions
  by_cases hpos : 0.0 < b.degreeOf inputs r
  · rw [if_pos hpos, List.filter_eq_self]
    intro a ha
    obtain ⟨c, _, rfl⟩ := List.mem_map.mp ha
    exact decide_eq_true hpos
  · rw [if_neg hpos, List.filter_eq_nil_iff]
    intro a ha
    obtain ⟨c, _, rfl⟩ := List.mem_map.mp ha
    exact mt of_decide_eq_true hpos

/-- **The firing rules activate** what is concluded to a positive degree. -/
theorem activationsOf_firings (blocks : List (RuleBlock α)) (i : Nat) :
    activationsOf i (blocks.flatMap (·.firings inputs))
      = (conclusions inputs blocks i).filter fun a => decide (0.0 < a.degree) := by
  have hrule : ∀ (b : RuleBlock α) (r : Rule α),
      activationsOf i (b.firing? inputs r).toList
        = (b.conclusions inputs i r).filter fun a => decide (0.0 < a.degree) := by
    intro b r
    rw [b.filter_conclusions]
    unfold RuleBlock.firing?
    split_ifs
    · simp [activationsOf, RuleBlock.conclusions]
    · rfl
  unfold conclusions
  simp only [List.filter_flatMap, ← hrule, RuleBlock.firings_eq, List.filterMap_eq_flatMap_toList]
  unfold activationsOf
  simp only [List.flatMap_assoc]

theorem mem_conclusions_iff {blocks : List (RuleBlock α)} {i : Nat} {a : Activation α} :
    a ∈ conclusions inputs blocks i ↔ ∃ b ∈ blocks, ∃ r ∈ b.rules, ∃ c ∈ r.consequents,
      c.var = i ∧ a = ⟨c.term, b.degreeOf inputs r, b.implication⟩ := by
  simp only [conclusions, RuleBlock.conclusions, List.mem_flatMap, List.mem_map, List.mem_filter,
    beq_iff_eq, and_assoc, @eq_comm _ a]

end Conclusions

/-! ## §4. Rearrangements. -/

section Rearrangements

variable {α : Type} [Scalar α]

/-- Rules with the condition and the weight of `r`, one for each of its consequents.  Their texts
are free. -/
def Rule.SplitsInto (r : Rule α) (parts : List (Rule α)) : Prop :=
  List.Forall₂ (fun c part => part.condition = r.condition ∧ part.consequents = [c]
    ∧ part.weight = r.weight) r.consequents parts

/-- **One rearrangement** of the rules, for given inputs. -/
inductive Rearranges (inputs : List (Input α)) :
    List (RuleBlock α) → List (RuleBlock α) → Prop where
  /-- The blocks in another order. -/
  | blocks {bs bs' : List (RuleBlock α)} (h : bs.Perm bs') : Rearranges inputs bs bs'
  /-- The rules of a block in another order. -/
  | rules (before after : List (RuleBlock α)) {b : RuleBlock α} {rs : List (Rule α)}
      (h : b.rules.Perm rs) :
      Rearranges inputs (before ++ b :: after) (before ++ { b with rules := rs } :: after)
  /-- One rule for each consequent of a rule. -/
  | split (before after : List (RuleBlock α)) {b : RuleBlock α} (front back : List (Rule α))
      {parts : List (Rule α)} {r : Rule α} (hrules : b.rules = front ++ r :: back)
      (hsome : r.consequents ≠ []) (hparts : r.SplitsInto parts) :
      Rearranges inputs (before ++ b :: after)
        (before ++ { b with rules := front ++ parts ++ back } :: after)
  /-- Without a rule that has no degree, while there is another one. -/
  | drop (before after : List (RuleBlock α)) {b : RuleBlock α} (front back : List (Rule α))
      {r : Rule α} (hrules : b.rules = front ++ r :: back) (hsilent : b.degreeOf inputs r = 0.0)
      (hrest : ∃ b' ∈ before ++ { b with rules := front ++ back } :: after, b'.rules ≠ []) :
      Rearranges inputs (before ++ b :: after)
        (before ++ { b with rules := front ++ back } :: after)

/-- A rule concludes what its parts conclude, one after the other. -/
theorem Rule.SplitsInto.conclusions {r : Rule α} {parts : List (Rule α)} (h : r.SplitsInto parts)
    (b : RuleBlock α) (inputs : List (Input α)) (i : Nat) :
    parts.flatMap (b.conclusions inputs i) = b.conclusions inputs i r := by
  unfold SplitsInto at h
  unfold RuleBlock.conclusions
  -- By induction on the consequents that are not split off yet; the degree stays that of `r`.
  generalize r.consequents = cs at h
  induction h with
  | nil => rfl
  | @cons c part cs parts hpart _ ih =>
    obtain ⟨hcondition, hconsequents, hweight⟩ := hpart
    have hdegree : b.degreeOf inputs part = b.degreeOf inputs r := by
      unfold RuleBlock.degreeOf
      rw [hcondition, hweight]
    rw [List.flatMap_cons, ih, hconsequents, hdegree]
    by_cases hc : c.var == i
    · simp [hc]
    · simp [hc]

theorem conclusions_inside (inputs : List (Input α)) (before after : List (RuleBlock α))
    (b : RuleBlock α) (i : Nat) :
    conclusions inputs (before ++ b :: after) i
      = conclusions inputs before i ++ (b.rules.flatMap (b.conclusions inputs i)
        ++ conclusions inputs after i) := by
  simp [conclusions]

omit [Scalar α] in
theorem Rule.SplitsInto.ne_nil {r : Rule α} {parts : List (Rule α)} (h : r.SplitsInto parts)
    (hsome : r.consequents ≠ []) : parts ≠ [] := by
  have hlength := List.Forall₂.length_eq h
  exact List.ne_nil_of_length_pos (hlength ▸ List.length_pos_of_ne_nil hsome)

/-- **A rearrangement leaves a rule** exactly if there was one. -/
theorem Rearranges.all_isEmpty {inputs : List (Input α)} {bs bs' : List (RuleBlock α)}
    (h : Rearranges inputs bs bs') :
    bs'.all (·.rules.isEmpty) = bs.all (·.rules.isEmpty) := by
  cases h with
  | blocks h => exact h.symm.all_eq
  | rules _ _ h => simp [h.isEmpty_eq]
  | split _ _ _ _ hrules hsome hparts =>
    simp [hrules, hparts.ne_nil hsome, List.isEmpty_eq_false_iff.mpr]
  | @drop before after b front back _ hrules _ hrest =>
    have hleft : (before ++ { b with rules := front ++ back } :: after).all (·.rules.isEmpty)
        = false :=
      List.all_eq_false.mpr (by simpa using hrest)
    rw [hleft]
    simp [hrules, List.isEmpty_eq_false_iff.mpr]

end Rearrangements

/-- **A rearrangement keeps what is activated**, up to the order. -/
theorem Rearranges.activationsOf_perm {inputs : List (Input Extended)}
    {bs bs' : List (RuleBlock Extended)} (h : Rearranges inputs bs bs') (i : Nat) :
    (activationsOf i (bs.flatMap (·.firings inputs))).Perm
      (activationsOf i (bs'.flatMap (·.firings inputs))) := by
  rw [activationsOf_firings, activationsOf_firings]
  -- Only dropping a rule changes what is concluded, by what does not fire.
  cases h with
  | blocks h => exact (h.flatMap_right _).filter _
  | rules _ _ h =>
    rw [conclusions_inside, conclusions_inside]
    exact (((h.flatMap_right _).append_right _).append_left _).filter _
  | split _ _ _ _ hrules _ hparts =>
    have hsame := hparts.conclusions
    refine List.Perm.of_eq (congrArg (List.filter _) ?_)
    rw [conclusions_inside, conclusions_inside, hrules]
    simp only [List.flatMap_append, List.flatMap_cons, List.append_assoc]
    rw [hsame]
    rfl
  | @drop _ _ b _ _ r hrules hsilent _ =>
    have hnone : (b.conclusions inputs i r).filter (fun a => decide (0.0 < a.degree)) = [] := by
      rw [b.filter_conclusions, hsilent]
      exact if_neg (by decide +kernel)
    rw [conclusions_inside, conclusions_inside, hrules]
    simp only [List.flatMap_append, List.flatMap_cons, List.filter_append, hnone]
    rfl

/-- **Rearrangements one after the other** keep both. -/
theorem activationsOf_rearranged {inputs : List (Input Extended)}
    {bs bs' : List (RuleBlock Extended)}
    (h : Relation.ReflTransGen (Rearranges inputs) bs bs') :
    bs'.all (·.rules.isEmpty) = bs.all (·.rules.isEmpty)
      ∧ ∀ i, (activationsOf i (bs.flatMap (·.firings inputs))).Perm
        (activationsOf i (bs'.flatMap (·.firings inputs))) := by
  induction h with
  | refl => exact ⟨rfl, fun _ => List.Perm.refl _⟩
  | tail _ hstep ih =>
    exact ⟨hstep.all_isEmpty.trans ih.1, fun i => (ih.2 i).trans (hstep.activationsOf_perm i)⟩

/-! ## §5. Engines. -/

namespace Engine

/-- What one reads off the outputs: their values, and whether any rule activated them. -/
def results {α : Type} (e : Engine α) : List (α × Bool) :=
  e.outputs.map fun v => (v.value, v.isActivated)

/-- The engine with other rules. -/
def withBlocks {α : Type} (e : Engine α) (bs : List (RuleBlock α)) : Engine α :=
  { e with blocks := bs }

section Rearranged

variable {e : Engine Extended}

/-- **Only what is activated counts**, and not in which order. -/
theorem results_inferred (h : e.Sound) (hproper : e.Proper)
    (hset : ∀ v ∈ e.inputs, v.isSet = true) {bs : List (RuleBlock Extended)}
    (hperm : ∀ i, (activationsOf i e.firings).Perm (activationsOf i (e.withBlocks bs).firings)) :
    results { e.withBlocks bs with outputs := (e.withBlocks bs).inferred }
      = results { e with outputs := e.inferred } := by
  unfold results inferred
  refine List.ext_getElem (by simp [withBlocks]) fun i hi hi' => ?_
  have hlength : i < e.outputs.length := by
    simpa using hi'
  have hactivated := isActivated_activationsOf h hproper hset hlength
  simp only [List.getElem_map, List.getElem_mapIdx]
  refine Prod.ext (Output.value_perm hactivated (hperm i)) ?_
  exact congrArg (!·) (hperm i).isEmpty_eq.symm

/-- **No rearrangement is seen in an output**, and silent rules count for nothing.  Over an engine
with made terms and rules that were read, and numbers for all inputs: whatever rearrangements of
the rules follow each other, an inference answers with the same error or with the same values,
and the same outputs are activated; and an engine that lacks nothing infers outputs whose
aggregated memberships are the unions over all rules about them, whether they fire or not. -/
theorem process_rearranged (hreachable : e.Reachable) (hproper : e.Proper)
    (hset : ∀ v ∈ e.inputs, v.isSet = true) :
    (∀ bs, Relation.ReflTransGen (Rearranges e.inputs) e.blocks bs →
        (e.withBlocks bs).process.map results = e.process.map results)
      ∧ (e.missing? = none → ∃ e', e.process = .ok e' ∧ e'.outputs.length = e.outputs.length
          ∧ ∀ i v, e'.outputs[i]? = some v → ∀ x, Scalar.isNaN x = false →
            v.aggregated x = (conclusions e.inputs e.blocks i).foldl (fun degree a =>
              v.aggregation.apply degree (Output.impliedMembership v.terms x a)) 0.0) := by
  have hsound := hreachable.sound
  have hnumbers : e.inputs.find? (!·.isSet) = none :=
    List.find?_eq_none.mpr fun v hv => by simp [hset v hv]
  constructor
  · intro bs hbs
    obtain ⟨hrules, hperm⟩ := activationsOf_rearranged hbs
    have hmissing : (e.withBlocks bs).missing? = e.missing? := by
      unfold missing? withBlocks
      rw [hrules]
    have hnumbers' : (e.withBlocks bs).inputs.find? (!·.isSet) = none := hnumbers
    unfold process
    rw [hmissing, hnumbers, hnumbers']
    cases e.missing? with
    | some m => rfl
    | none => exact congrArg Except.ok (results_inferred hsound hproper hset hperm)
  · intro hready
    refine ⟨{ e with outputs := e.inferred }, ?_, List.length_mapIdx, fun i v hv x hx => ?_⟩
    · unfold process
      rw [hready, hnumbers]
    · obtain ⟨w, hw, rfl⟩ : ∃ w, e.outputs[i]? = some w
          ∧ Output.defuzzified { w with activations := activationsOf i e.firings } = v := by
        simpa [inferred] using hv
      obtain ⟨hi, rfl⟩ := List.getElem?_eq_some_iff.mp hw
      -- What fires is what is concluded to a positive degree, and the rest counts for nothing.
      have hconcluded := isActivated_of_concluded hsound hproper hset hi
        fun a ha => mem_conclusions_iff.mp ha
      have hall := Output.aggregated_filter hconcluded hx
      rw [← activationsOf_firings] at hall
      exact hall

end Rearranged

section Rearrangeable

/-- A rule for trials with two consequents. -/
def doubleRule : Rule Extended :=
  ⟨"if A is HIGH then Y is UP and Z is UP with 0.5", .prop ⟨0, 1, false⟩,
    [⟨0, 0, false⟩, ⟨1, 0, false⟩], 0.5⟩

/-- One of its parts. -/
def singleRule (var : Nat) : Rule Extended := ⟨"", .prop ⟨0, 1, false⟩, [⟨var, 0, false⟩], 0.5⟩

/-- A rule that is silent while the input is at the end of its range. -/
def silentRule : Rule Extended :=
  ⟨"if A is LOW then Y is UP", .prop ⟨0, 0, false⟩, [⟨0, 0, false⟩], 1.0⟩

/-- A block of some rules. -/
def blockOf (rules : List (Rule Extended)) : RuleBlock Extended :=
  ⟨"block", .minimum, .maximum, .algebraicProduct, rules⟩

/-- Operations that build an engine with both rules, and set its input there. -/
def rearrangeableAssembly : List (Operation Extended) :=
  [.addInput ⟨"A", 0.0, 1.0, [⟨"LOW", .ramp 1.0 0.0⟩, ⟨"HIGH", .ramp 0.0 1.0⟩], Scalar.nan⟩,
    .addOutput (assembledOutput "Y"), .addOutput (assembledOutput "Z"),
    .addBlock (blockOf [doubleRule, silentRule]), .setInput "A" 1.0]

/-- The engine that these operations build. -/
def rearrangeable : Engine Extended := rearrangeableAssembly.foldl perform (new "rearrangeable")

theorem reachable_rearrangeable : rearrangeable.Reachable := by
  refine (Reachable.new "rearrangeable").foldl_perform rearrangeableAssembly fun v hv => ?_
  have hnames : v = assembledOutput "Y" ∨ v = assembledOutput "Z" := by
    simpa [rearrangeableAssembly] using hv
  rcases hnames with rfl | rfl
  · exact madeOutput_assembledOutput (by decide +kernel)
  · exact madeOutput_assembledOutput (by decide +kernel)

theorem blocks_rearrangeable : rearrangeable.blocks = [blockOf [doubleRule, silentRule]] := by
  rfl

theorem proper_rearrangeable : rearrangeable.Proper := by
  refine proper_of_checks (by decide +kernel) (by decide +kernel) fun b hb r hr => ?_
  rw [blocks_rearrangeable, List.mem_singleton] at hb
  subst hb
  have hrules : r = doubleRule ∨ r = silentRule := by
    simpa [blockOf] using hr
  rcases hrules with rfl | rfl
  · exact isRead_of_toOption rearrangeable doubleRule.text (by decide +kernel)
  · exact isRead_of_toOption rearrangeable silentRule.text (by decide +kernel)

/-- Its rules after the silent one was dropped and the other one taken apart, in reverse. -/
theorem rearranges_rearrangeable : Relation.ReflTransGen (Rearranges rearrangeable.inputs)
    rearrangeable.blocks [blockOf [singleRule 1, singleRule 0]] := by
  rw [blocks_rearrangeable]
  have hdrop : Rearranges rearrangeable.inputs [blockOf [doubleRule, silentRule]]
      [blockOf [doubleRule]] :=
    .drop [] [] [doubleRule] [] rfl (by decide +kernel)
      ⟨_, List.mem_singleton_self _, List.cons_ne_nil _ _⟩
  have hparts : doubleRule.SplitsInto [singleRule 0, singleRule 1] :=
    .cons ⟨rfl, rfl, rfl⟩ (.cons ⟨rfl, rfl, rfl⟩ .nil)
  have hsplit : Rearranges rearrangeable.inputs [blockOf [doubleRule]]
      [blockOf [singleRule 0, singleRule 1]] :=
    .split [] [] [] [] rfl (List.cons_ne_nil _ _) hparts
  have hswap : Rearranges rearrangeable.inputs [blockOf [singleRule 0, singleRule 1]]
      [blockOf [singleRule 1, singleRule 0]] := .rules [] [] (.swap _ _ _)
  exact .tail (.tail (.single hdrop) hsplit) hswap

/-- Both sets of rules come to the same, and both outputs are activated. -/
theorem rearrangeable_neutral : rearrangeable.Reachable ∧ rearrangeable.Proper
    ∧ (∀ v ∈ rearrangeable.inputs, v.isSet = true)
    ∧ (rearrangeable.withBlocks [blockOf [singleRule 1, singleRule 0]]).process.map results
      = rearrangeable.process.map results
    ∧ rearrangeable.process.toOption.map (fun e' => e'.outputs.map (·.isActivated))
      = some [true, true] := by
  have hset : ∀ v ∈ rearrangeable.inputs, v.isSet = true := by decide +kernel
  obtain ⟨hsame, _⟩ := process_rearranged reachable_rearrangeable proper_rearrangeable hset
  exact ⟨reachable_rearrangeable, proper_rearrangeable, hset, hsame _ rearranges_rearrangeable,
    by decide +kernel⟩

end Rearrangeable

end Engine

end CapacityControl.Fuzzy
