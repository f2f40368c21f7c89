/-
  CapacityControl.Proofs.Fuzzy.Growth
  ───────────────────────────────────
  WHAT WAS READ STAYS READ.  Reading looks names up by their first place, and an engine
  only ever gets variables behind those that it has (`Grows`).  So a text that is read
  as a rule is read as the same rule ever after (`Grows.readRule`), and the rule refers
  to what the engine has (`grounds_of_readRule`), so that its block is never refused.
-/
import CapacityControl.Proofs.Fuzzy.Assembly
import CapacityControl.Proofs.Fuzzy.Sentence
import CapacityControl.Scalar.Binary64

namespace CapacityControl.Fuzzy

variable {α : Type}

/-! ## §1. Reading over more names. -/

namespace RuleText

section Mono

variable {v v' : Vocabulary}

/-- A variable keeps its place if others are added behind it. -/
theorem Vocabulary.variable?_mono (hv : v <+: v') {name : String} {found : Nat × List String}
    (hfound : v.variable? name = some found) : v'.variable? name = some found := by
  obtain ⟨added, rfl⟩ := hv
  unfold Vocabulary.variable? at hfound ⊢
  obtain ⟨i, hi, hentry⟩ := Option.bind_eq_some_iff.mp hfound
  obtain ⟨entry, hget, rfl⟩ := Option.map_eq_some_iff.mp hentry
  obtain ⟨hlt, _⟩ := List.getElem?_eq_some_iff.mp hget
  rw [List.findIdx?_append, hi, Option.some_or, Option.bind_some, List.getElem?_append_left hlt,
    hget]
  rfl

-- By recursion on the words: once a name is found, both readings do the same with it.
mutual

/-- A condition that is read from an operand on is read the same over more names. -/
theorem operand_mono (hv : v <+: v') {outer : List Pending} {here : Pending}
    {r : Condition × List String} :
    ∀ {ws : List String}, (operand v outer here ws : Except (Fault α) _) = .ok r →
      (operand v' outer here ws : Except (Fault α) _) = .ok r
  | [], h => nomatch h
  | name :: ws, h => by
    unfold operand at h ⊢
    by_cases hopen : name = "("
    · rw [if_pos hopen] at h ⊢
      exact operand_mono hv h
    · rw [if_neg hopen] at h ⊢
      cases hvar : v.variable? name with
      | none =>
        rw [hvar] at h
        cases h
      | some found =>
        rw [hvar] at h
        rw [Vocabulary.variable?_mono hv hvar]
        match ws, h with
        | [], h => exact h
        | [word], h => exact h
        | word :: first :: rest, h =>
          dsimp only at h ⊢
          by_cases his : word = "is"
          · rw [if_neg (not_not_intro his)] at h ⊢
            by_cases hnot : first = "not"
            · rw [if_pos hnot] at h ⊢
              match rest, h with
              | [], h => exact h
              | term :: rest, h =>
                dsimp only at h ⊢
                cases hterm : (resolveTerm name found.2 term : Except (Fault α) Nat) with
                | error e =>
                  rw [hterm] at h
                  cases h
                | ok j =>
                  rw [hterm] at h
                  exact operator_mono hv h
            · rw [if_neg hnot] at h ⊢
              cases hterm : (resolveTerm name found.2 first : Except (Fault α) Nat) with
              | error e =>
                rw [hterm] at h
                cases h
              | ok j =>
                rw [hterm] at h
                exact operator_mono hv h
          · rw [if_pos his] at h
            cases h

/-- A condition that is read from behind an operand on is read the same over more names. -/
theorem operator_mono (hv : v <+: v') {outer : List Pending} {here : Settled}
    {r : Condition × List String} :
    ∀ {ws : List String}, (operator v outer here ws : Except (Fault α) _) = .ok r →
      (operator v' outer here ws : Except (Fault α) _) = .ok r
  | [], h => by
    unfold operator at h ⊢
    exact h
  | word :: ws, h => by
    unfold operator at h ⊢
    by_cases hand : word = "and"
    · rw [if_pos hand] at h ⊢
      exact operand_mono hv h
    · rw [if_neg hand] at h ⊢
      by_cases hor : word = "or"
      · rw [if_pos hor] at h ⊢
        exact operand_mono hv h
      · rw [if_neg hor] at h ⊢
        cases outer with
        | nil => exact h
        | cons above outer =>
          dsimp only at h ⊢
          by_cases hclose : word = ")"
          · rw [if_pos hclose] at h ⊢
            exact operator_mono hv h
          · rw [if_neg hclose] at h
            cases h

end

/-- Consequents that are read are read the same over more names. -/
theorem consequents_mono (hv : v <+: v') {ws : List String} {r : List Proposition × List String}
    (h : (consequents v ws : Except (Fault α) _) = .ok r) :
    (consequents v' ws : Except (Fault α) _) = .ok r := by
  -- on the length of the text: what follows an `and` is shorter
  induction hlength : ws.length using Nat.strongRecOn generalizing ws r with
  | ind length ih =>
    subst hlength
    cases ws with
    | nil => cases h
    | cons name ws =>
      unfold consequents at h ⊢
      cases hvar : v.variable? name with
      | none =>
        rw [hvar] at h
        cases h
      | some found =>
        rw [hvar] at h
        rw [Vocabulary.variable?_mono hv hvar]
        rcases ws with _ | ⟨word, _ | ⟨term, rest⟩⟩
        · exact h
        · exact h
        dsimp only at h ⊢
        by_cases his : word = "is"
        · rw [if_neg (not_not_intro his)] at h ⊢
          by_cases hnot : term = "not"
          · rw [if_pos hnot] at h
            cases h
          · rw [if_neg hnot] at h ⊢
            cases hterm : (resolveTerm name found.2 term : Except (Fault α) Nat) with
            | error e =>
              rw [hterm] at h
              cases h
            | ok j =>
              rw [hterm] at h
              cases rest with
              | nil => exact h
              | cons next us =>
                dsimp only at h ⊢
                by_cases hand : next = "and"
                · rw [if_pos hand] at h ⊢
                  obtain ⟨read, hread, heq⟩ := map_eq_ok_iff.mp h
                  have hshorter : us.length < (name :: word :: term :: next :: us).length := by
                    simp only [List.length_cons]
                    omega
                  exact map_eq_ok_iff.mpr ⟨read, ih us.length hshorter hread rfl, heq⟩
                · rw [if_neg hand] at h ⊢
                  exact h
        · rw [if_pos his] at h
          cases h

end Mono

/-- **A rule that is read** is read the same over more names. -/
theorem read_mono [Scalar α] {inputs inputs' outputs outputs' : Vocabulary}
    (hinputs : inputs <+: inputs') (houtputs : outputs <+: outputs') {text : String}
    {rule : Rule α} (h : read inputs outputs text = .ok rule) :
    read inputs' outputs' text = .ok rule := by
  obtain ⟨afterIf, hif, h⟩ := bind_eq_ok_iff.mp h
  obtain ⟨condition, hcondition, h⟩ := bind_eq_ok_iff.mp h
  obtain ⟨afterThen, hthen, h⟩ := bind_eq_ok_iff.mp h
  obtain ⟨concluded, hconcluded, h⟩ := bind_eq_ok_iff.mp h
  refine bind_eq_ok_iff.mpr ⟨afterIf, hif, ?_⟩
  refine bind_eq_ok_iff.mpr ⟨condition, operand_mono hinputs hcondition, ?_⟩
  refine bind_eq_ok_iff.mpr ⟨afterThen, hthen, ?_⟩
  exact bind_eq_ok_iff.mpr ⟨concluded, consequents_mono houtputs hconcluded, h⟩

/-! ## §2. What a sentence refers to. -/

section Reference

variable {v : Vocabulary}

/-- **A place in a vocabulary**: one of its variables, and one of the terms of that. -/
def Vocabulary.Holds (v : Vocabulary) (p : Proposition) : Prop :=
  ∃ entry, v[p.var]? = some entry ∧ p.term < entry.2.length

theorem Names.holds {owner term : String} {place : Nat × Nat} (h : Names v owner term place)
    (negated : Bool) : v.Holds ⟨place.1, place.2, negated⟩ := by
  obtain ⟨terms, hentry, _, hterm, _⟩ := (names_iff v owner term place.1 place.2).mp h
  obtain ⟨hlt, _⟩ := List.getElem?_eq_some_iff.mp hterm
  exact ⟨_, hentry, hlt⟩

mutual

theorem IsDisjunction.holds {p : Proposition} :
    ∀ {ws : List String} {c : Condition}, IsDisjunction v ws c → c.Mentions p → v.Holds p
  | _, _, .single h, hp => h.holds hp
  | _, _, .join left _, .orLeft hp => left.holds hp
  | _, _, .join _ right, .orRight hp => right.holds hp

theorem IsConjunction.holds {p : Proposition} :
    ∀ {ws : List String} {c : Condition}, IsConjunction v ws c → c.Mentions p → v.Holds p
  | _, _, .single h, hp => h.holds hp
  | _, _, .join left _, .andLeft hp => left.holds hp
  | _, _, .join _ right, .andRight hp => right.holds hp

theorem IsAtom.holds {p : Proposition} :
    ∀ {ws : List String} {c : Condition}, IsAtom v ws c → c.Mentions p → v.Holds p
  | _, _, .group h, hp => h.holds hp
  | _, _, .affirmed h, hp => by
    cases hp
    exact h.holds false
  | _, _, .negated h, hp => by
    cases hp
    exact h.holds true

end

/-- **Consequents** are one at least, none of them negated, each a place in the vocabulary. -/
theorem AreConsequents.proper {ws : List String} {ps : List Proposition}
    (h : AreConsequents v ws ps) : ps ≠ [] ∧ ∀ p ∈ ps, p.negated = false ∧ v.Holds p := by
  induction h with
  | last h =>
    refine ⟨List.cons_ne_nil _ _, fun p hp => ?_⟩
    rw [List.mem_singleton.mp hp]
    exact ⟨rfl, h.holds false⟩
  | more h _ ih =>
    refine ⟨List.cons_ne_nil _ _, fun p hp => ?_⟩
    rcases List.mem_cons.mp hp with rfl | hp
    · exact ⟨rfl, h.holds false⟩
    · exact ih.2 p hp

/-- **A sentence** means a rule on places in the two vocabularies. -/
theorem IsSentence.proper [Scalar α] {inputs outputs : Vocabulary} {ws : List String}
    {c : Condition} {ps : List Proposition} {w : α} (h : IsSentence inputs outputs ws c ps w) :
    (∀ p, c.Mentions p → inputs.Holds p) ∧ ps ≠ []
      ∧ ∀ p ∈ ps, p.negated = false ∧ outputs.Holds p := by
  cases h with
  | rule condition consequents _ => exact ⟨fun _ hp => condition.holds hp, consequents.proper⟩

end Reference

end RuleText

/-! ## §3. Engines that grow. -/

namespace Engine

/-- **An engine with the variables of another**, under the same names and with the same terms,
others perhaps behind them. -/
structure Grows (e e' : Engine α) : Prop where
  inputs : e.inputs.map (fun v => (v.name, v.terms)) <+: e'.inputs.map fun v => (v.name, v.terms)
  outputs :
    e.outputs.map (fun v => (v.name, v.terms)) <+: e'.outputs.map fun v => (v.name, v.terms)

variable {e e' : Engine α}

theorem Grows.refl (e : Engine α) : e.Grows e := ⟨List.prefix_rfl, List.prefix_rfl⟩

theorem Grows.trans {e'' : Engine α} (h : e.Grows e') (h' : e'.Grows e'') : e.Grows e'' :=
  ⟨h.inputs.trans h'.inputs, h.outputs.trans h'.outputs⟩

theorem Grows.inputVocabulary (h : e.Grows e') : e.inputVocabulary <+: e'.inputVocabulary := by
  have hmap := h.inputs.map fun entry : String × List (Term α) => (entry.1, entry.2.map (·.name))
  rwa [List.map_map, List.map_map] at hmap

theorem Grows.outputVocabulary (h : e.Grows e') : e.outputVocabulary <+: e'.outputVocabulary := by
  have hmap := h.outputs.map fun entry : String × List (Term α) => (entry.1, entry.2.map (·.name))
  rwa [List.map_map, List.map_map] at hmap

theorem Grows.extends (h : e.Grows e') : e.Extends e' := by
  have hinputs := h.inputs.map Prod.snd
  have houtputs := h.outputs.map Prod.snd
  rw [List.map_map, List.map_map] at hinputs houtputs
  exact ⟨hinputs, houtputs⟩

variable [Scalar α]

/-- **Every operation lets an engine grow**, whether it is refused or not. -/
theorem grows_perform (e : Engine α) (op : Operation α) : e.Grows (e.perform op) := by
  refine perform_induction (P := fun e' => e.Grows e') (.refl e) op fun e' hop => ?_
  obtain ⟨hinputs, houtputs⟩ := map_attempt (fun v => (v.name, v.terms))
    (fun v => (v.name, v.terms)) (fun _ _ => rfl) (fun _ _ _ => rfl) hop
  exact ⟨hinputs ▸ List.prefix_append _ _, houtputs ▸ List.prefix_append _ _⟩

/-- **So does any sequence of operations.** -/
theorem grows_foldl (e : Engine α) (ops : List (Operation α)) :
    e.Grows (ops.foldl perform e) := by
  induction ops generalizing e with
  | nil => exact .refl e
  | cons op ops ih => exact (grows_perform e op).trans (ih (e.perform op))

/-! ## §4. Rules that were read. -/

/-- A text that is read as a rule is read as that rule by every engine that grew out of this
one. -/
theorem Grows.readRule (h : e.Grows e') {text : String} {rule : Rule α}
    (hread : e.readRule text = .ok rule) : e'.readRule text = .ok rule :=
  mapError_eq_ok_iff.mpr <|
    RuleText.read_mono h.inputVocabulary h.outputVocabulary (mapError_eq_ok_iff.mp hread)

omit [Scalar α] in
/-- A place in the names of variables is one among the variables. -/
theorem inside_of_holds {β : Type} {vs : List β} {name : β → String} {terms : β → List (Term α)}
    {p : Proposition}
    (h : RuleText.Vocabulary.Holds (vs.map fun v => (name v, (terms v).map (·.name))) p) :
    p.Inside (vs.map terms) := by
  obtain ⟨_, hentry, hterm⟩ := h
  rw [List.getElem?_map] at hentry
  obtain ⟨v, hv, rfl⟩ := Option.map_eq_some_iff.mp hentry
  refine ⟨terms v, ?_, by simpa using hterm⟩
  rw [List.getElem?_map, hv]
  rfl

/-- **What is read is a rule of the engine**: it refers only to what the engine has, and
concludes something, without a negation. -/
theorem grounds_of_readRule {text : String} {rule : Rule α} (h : e.readRule text = .ok rule) :
    e.Grounds rule ∧ rule.consequents ≠ [] ∧ ∀ c ∈ rule.consequents, c.negated = false := by
  obtain ⟨_, hsentence⟩ := RuleText.isSentence_of_readWords (mapError_eq_ok_iff.mp h)
  obtain ⟨hcondition, hsome, hconsequents⟩ := hsentence.proper
  refine ⟨⟨fun p hp => ?_, fun c hc => ?_⟩, hsome, fun c hc => (hconsequents c hc).1⟩
  · exact inside_of_holds (hcondition p hp)
  · exact inside_of_holds (hconsequents c hc).2

/-- **What was read stays valid.**  Whatever text an engine reads as a rule: the rule concludes
something, without a negation, and its weight is a degree.  After any operations on the engine
the text is read as the same rule, and a block of rules that were read is added. -/
theorem readRule_stays_valid (e : Engine Float) (ops : List (Operation Float)) :
    (∀ text rule, e.readRule text = .ok rule →
        rule.consequents ≠ [] ∧ (∀ c ∈ rule.consequents, c.negated = false)
          ∧ Scalar.inUnit rule.weight = true
          ∧ (ops.foldl perform e).readRule text = .ok rule)
      ∧ ∀ b : RuleBlock Float, (∀ r ∈ b.rules, ∃ text, e.readRule text = .ok r) →
          ∃ e', (ops.foldl perform e).addBlock b = .ok e' := by
  have hgrows := grows_foldl e ops
  refine ⟨fun text rule hread => ?_, fun b hb => ?_⟩
  · obtain ⟨_, hsome, haffirmed⟩ := grounds_of_readRule hread
    obtain ⟨_, hsentence⟩ := RuleText.isSentence_of_readWords (mapError_eq_ok_iff.mp hread)
    exact ⟨hsome, haffirmed, hsentence.inUnit (by decide +kernel), hgrows.readRule hread⟩
  · refine ⟨_, (addBlock_ok_iff b).mpr ⟨fun r hr => ?_, rfl⟩⟩
    obtain ⟨text, hread⟩ := hb r hr
    exact (grounds_of_readRule hread).1.mono hgrows.extends

/-- An engine for trials, with an input and an output. -/
def growing : Engine Float where
  name := "growing"
  inputs := [⟨"A", 0.0, 1.0, [⟨"LOW", .ramp 1.0 0.0⟩, ⟨"HIGH", .ramp 0.0 1.0⟩], Scalar.nan⟩]
  outputs := [⟨"Y", 0.0, 1.0, [⟨"UP", .ramp 0.0 1.0⟩], .maximum, .standard, Scalar.nan, [],
    Scalar.nan⟩]
  blocks := []

/-- A rule for trials: a negation, and a weight. -/
def growingRule : Rule Float :=
  ⟨"if A is not HIGH then Y is UP with 0.25", .prop ⟨0, 1, true⟩, [⟨0, 0, false⟩],
    Scalar.ofLiteral (.decimal false 25 (-2))⟩

/-- Operations that let it grow: an input whose terms have the same names as those of the first,
one that is refused because its name is taken, an inference that is refused too, and a restart. -/
def growth : List (Operation Float) :=
  [.addInput ⟨"B", 0.0, 1.0, [⟨"HIGH", .ramp 1.0 0.0⟩], Scalar.nan⟩,
    .addInput ⟨"A", 0.0, 1.0, [⟨"HIGH", .ramp 1.0 0.0⟩], Scalar.nan⟩,
    .setInput "A" 0.5, .process, .restart]

/-- After all of them the text is read as before, and its block is added. -/
theorem growing_stays_valid :
    growing.readRule growingRule.text = .ok growingRule
      ∧ (growth.foldl perform growing).names = ["A", "B", "Y"]
      ∧ (growth.foldl perform growing).readRule growingRule.text = .ok growingRule
      ∧ ∃ e', (growth.foldl perform growing).addBlock
          ⟨"read", .minimum, .maximum, .algebraicProduct, [growingRule]⟩ = .ok e' := by
  have hnamed : growing.Named := ⟨by decide +kernel, by decide +kernel⟩
  have hwords : RuleText.words growingRule.text
      = ["if", "A", "is", "not", "HIGH", "then", "Y", "is", "UP", "with", "0.25"] := by
    decide +kernel
  have hA : RuleText.Names growing.inputVocabulary "A" "HIGH" (0, 1) :=
    ⟨["LOW", "HIGH"], by decide +kernel⟩
  have hY : RuleText.Names growing.outputVocabulary "Y" "UP" (0, 0) := ⟨["UP"], by decide +kernel⟩
  have hread : growing.readRule growingRule.text = .ok growingRule := by
    refine ((readRule_ok_iff_sentence growing hnamed _).1 _).mpr ⟨by decide +kernel, ?_⟩
    rw [hwords]
    exact .rule (.single (.single (.negated hA))) (.last hY)
      (.weighted (by decide +kernel) (by decide +kernel))
  obtain ⟨hvalid, hblocks⟩ := readRule_stays_valid growing growth
  refine ⟨hread, by decide +kernel, (hvalid _ _ hread).2.2.2, hblocks _ fun r hr => ?_⟩
  exact ⟨growingRule.text, (List.mem_singleton.mp hr).symm ▸ hread⟩

end Engine

end CapacityControl.Fuzzy
