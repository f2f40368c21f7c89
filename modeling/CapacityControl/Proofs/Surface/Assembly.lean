/-
  CapacityControl.Proofs.Surface.Assembly
  ───────────────────────────────────────
  THE SURFACE, PUT TOGETHER.  The engine of the control surface comes about by its words
  and its texts alone: variables from the checked constructors, and eighteen rules that
  are read from their texts (`assembleSurface`).  Every word passes its check and every
  text is read as the rule of its cell, so the outcome is the engine that the library
  uses (`assembleSurface_eq`).  In it the two resources do not hear of each other, and
  both answer by one and the same function (`surface_without_crosstalk`).
-/
import CapacityControl.Proofs.Fuzzy.Growth
import CapacityControl.Proofs.Fuzzy.Spacing
import CapacityControl.Proofs.Surface.Response

namespace CapacityControl

namespace Control

open Fuzzy RuleText

/-! ## §1. The texts of the rules. -/

section Texts

variable {α : Type} [Scalar α]

/-- The names that the conditions of the surface use. -/
def surfaceInputNames : Vocabulary :=
  [(residualName .cpu, ResidualTerm.all.map (·.name)),
    (residualName .memory, ResidualTerm.all.map (·.name)), (errorName, ErrorTerm.all.map (·.name))]

/-- The names that the consequents of the surface use. -/
def surfaceOutputNames : Vocabulary :=
  [(deltaName .cpu, DeltaTerm.all.map (·.name)), (deltaName .memory, DeltaTerm.all.map (·.name))]

theorem proper_surfaceInputNames : surfaceInputNames.Proper := by
  unfold Vocabulary.Proper
  decide

theorem proper_surfaceOutputNames : surfaceOutputNames.Proper := by
  unfold Vocabulary.Proper
  decide

/-- The words of a rule. -/
def ruleWords (r : Resource) (t : ResidualTerm) (u : ErrorTerm) : List String :=
  ["if", residualName r, "is", t.name, "and", errorName, "is", u.name, "then", deltaName r, "is",
    (recommended t u).name]

theorem isWord_ruleWords (r : Resource) (t : ResidualTerm) (u : ErrorTerm) :
    ∀ w ∈ ruleWords r t u, IsWord w.toList := by
  have hresource : IsWord (residualName r).toList ∧ IsWord (deltaName r).toList := by
    cases r <;> decide
  have hresidual : IsWord t.name.toList := by cases t <;> decide
  have herror : IsWord u.name.toList := by cases u <;> decide
  have hdelta (d : DeltaTerm) : IsWord d.name.toList := by cases d <;> decide
  unfold ruleWords
  simp only [List.forall_mem_cons]
  exact ⟨by decide, hresource.1, by decide, hresidual, by decide, by decide, by decide, herror,
    by decide, hresource.2, by decide, hdelta _, fun w hw => absurd hw List.not_mem_nil⟩

theorem ruleText_eq (r : Resource) (t : ResidualTerm) (u : ErrorTerm) :
    ruleText r t u = " ".intercalate (ruleWords r t u) := by
  have hif : "if " = "if" ++ " " := by decide
  have his : " is " = " " ++ "is" ++ " " := by decide
  have hand : " and " = " " ++ "and" ++ " " := by decide
  have hthen : " then " = " " ++ "then" ++ " " := by decide
  unfold ruleText ruleWords
  rw [hif, his, hand, hthen]
  simp only [String.intercalate_cons_cons, String.intercalate_singleton, String.append_assoc]

theorem words_ruleText (r : Resource) (t : ResidualTerm) (u : ErrorTerm) :
    words (ruleText r t u) = ruleWords r t u := by
  rw [ruleText_eq, words_intercalate fun w hw => .inl (isWord_ruleWords r t u w hw)]

theorem trimmed_ruleText (r : Resource) (t : ResidualTerm) (u : ErrorTerm) :
    trimmed (ruleText r t u) = ruleText r t u := by
  obtain ⟨middle, hmiddle⟩ : ∃ middle,
      (ruleText r t u).toList = "if".toList ++ middle ++ (recommended t u).name.toList := by
    have hbegin : "if ".toList = "if".toList ++ [' '] := by decide
    unfold ruleText
    simp only [String.toList_append, hbegin]
    simp only [List.append_assoc "if".toList]
    exact ⟨_, rfl⟩
  have hif : IsWord "if".toList := by decide
  have hname : IsWord (recommended t u).name.toList :=
    isWord_ruleWords r t u _ (by simp [ruleWords])
  unfold trimmed
  rw [hmiddle, trimBlanks_words hif hname, ← hmiddle, String.ofList_toList]

theorem names_residual (r : Resource) (t : ResidualTerm) :
    Names surfaceInputNames (residualName r) t.name (resourceIndex r, ResidualTerm.all.idxOf t) := by
  refine ⟨ResidualTerm.all.map (·.name), ?_, ?_⟩
  · cases r <;> rfl
  · cases t <;> rfl

theorem names_error (u : ErrorTerm) :
    Names surfaceInputNames errorName u.name (errorIndex, ErrorTerm.all.idxOf u) := by
  refine ⟨ErrorTerm.all.map (·.name), rfl, ?_⟩
  cases u <;> rfl

theorem names_delta (r : Resource) (d : DeltaTerm) :
    Names surfaceOutputNames (deltaName r) d.name (resourceIndex r, DeltaTerm.all.idxOf d) := by
  refine ⟨DeltaTerm.all.map (·.name), ?_, ?_⟩
  · cases r <;> rfl
  · cases d <;> rfl

/-- **The text of a cell** is read as the rule of the cell: its names are those of the variables
and terms that are meant. -/
theorem read_ruleText (r : Resource) (t : ResidualTerm) (u : ErrorTerm) :
    RuleText.read surfaceInputNames surfaceOutputNames (ruleText r t u)
      = .ok (surfaceRule r t u : Rule α) := by
  unfold RuleText.read
  rw [trimmed_ruleText, words_ruleText]
  have hsentence := IsSentence.rule (α := α)
    (.single (.join (.single (.affirmed (names_residual r t))) (.affirmed (names_error u))))
    (.last (names_delta r (recommended t u))) .unweighted
  exact readWords_sentence proper_surfaceInputNames proper_surfaceOutputNames hsentence

end Texts

/-! ## §2. Putting the surface together. -/

section Assembly

variable {α : Type} [Scalar α]

/-- An input whose name, range and terms are checked. -/
def makeInput (name : String) (minimum maximum : α) (terms : List (Term α)) :
    Except (Fuzzy.Error α) (Input α) := do
  let v ← (Input.new name minimum maximum).mapError .violated
  let terms ← (terms.mapM fun t => Term.new t.name t.shape).mapError .violated
  pure (terms.foldl Input.withTerm v)

/-- An output whose name, range and terms are checked, aggregating by the sum. -/
def makeOutput (name : String) (minimum maximum : α) (terms : List (Term α)) :
    Except (Fuzzy.Error α) (Output α) := do
  let v ← (Output.new name minimum maximum).mapError .violated
  let terms ← (terms.mapM fun t => Term.new t.name t.shape).mapError .violated
  pure (terms.foldl Output.withTerm { v with aggregation := .algebraicSum, fallback := Scalar.nan })

/-- The texts of the rules, row by row, first for the processor and then for the memory. -/
def ruleTexts : List String :=
  Resource.all.flatMap fun r =>
    ResidualTerm.all.flatMap fun residual => ErrorTerm.all.map fun error => ruleText r residual error

/-- **The control surface from its words and texts.**  Whatever is not in order is refused. -/
def assembleSurface : Except (Fuzzy.Error α) (Engine α) := do
  let e ← (Engine.new "fc2q").addInput (← makeInput (residualName .cpu) 0.0 1.0
    (ResidualTerm.all.map fun t => ⟨t.name, t.shape⟩))
  let e ← e.addInput (← makeInput (residualName .memory) 0.0 1.0
    (ResidualTerm.all.map fun t => ⟨t.name, t.shape⟩))
  let e ← e.addInput (← makeInput errorName (-1.0) 1.0
    (ErrorTerm.all.map fun t => ⟨t.name, t.shape⟩))
  let e ← e.addOutput (← makeOutput (deltaName .cpu) (-1.0) 1.0
    (DeltaTerm.all.map fun t => ⟨t.name, t.shape⟩))
  let e ← e.addOutput (← makeOutput (deltaName .memory) (-1.0) 1.0
    (DeltaTerm.all.map fun t => ⟨t.name, t.shape⟩))
  let rules ← ruleTexts.mapM e.readRule
  e.addBlock { (RuleBlock.new "capacity" : RuleBlock α) with rules := rules }

/-- Terms with proper names and shapes are made as they are. -/
theorem mapM_new {terms : List (Term α)}
    (h : ∀ t ∈ terms, IsName t.name ∧ t.shape.check.isOk = true) :
    (terms.mapM fun t => Term.new t.name t.shape) = .ok terms := by
  rw [mapM_eq_ok_iff]
  exact List.map_congr_left fun t ht => Term.new_of_isOk (h t ht).1 (h t ht).2

omit [Scalar α] in
theorem foldl_withTerm_input (v : Input α) (terms : List (Term α)) :
    terms.foldl Input.withTerm v = { v with terms := v.terms ++ terms } := by
  induction terms generalizing v with
  | nil => simp
  | cons t terms ih => simp [ih, Input.withTerm]

omit [Scalar α] in
theorem foldl_withTerm_output (v : Output α) (terms : List (Term α)) :
    terms.foldl Output.withTerm v = { v with terms := v.terms ++ terms } := by
  induction terms generalizing v with
  | nil => simp
  | cons t terms ih => simp [ih, Output.withTerm]

theorem makeInput_ok {name : String} {minimum maximum : α} {terms : List (Term α)}
    (hname : IsName name) (hrange : checkRange minimum maximum = .ok ())
    (hterms : ∀ t ∈ terms, IsName t.name ∧ t.shape.check.isOk = true) :
    makeInput name minimum maximum terms = .ok ⟨name, minimum, maximum, terms, Scalar.nan⟩ := by
  unfold makeInput
  rw [Input.new_of_ok hname hrange, mapM_new hterms]
  exact congrArg Except.ok (foldl_withTerm_input _ _)

theorem makeOutput_ok {name : String} {minimum maximum : α} {terms : List (Term α)}
    (hname : IsName name) (hrange : checkRange minimum maximum = .ok ())
    (hterms : ∀ t ∈ terms, IsName t.name ∧ t.shape.check.isOk = true) :
    makeOutput name minimum maximum terms
      = .ok ⟨name, minimum, maximum, terms, .algebraicSum, .standard, Scalar.nan, [],
          Scalar.nan⟩ := by
  unfold makeOutput
  rw [Output.new_of_ok hname hrange, mapM_new hterms]
  exact congrArg Except.ok (foldl_withTerm_output _ _)

section Reading

variable {e : Engine α} (hinputs : e.inputVocabulary = surfaceInputNames)
  (houtputs : e.outputVocabulary = surfaceOutputNames)

include hinputs houtputs

theorem readRule_ruleText (r : Resource) (t : ResidualTerm) (u : ErrorTerm) :
    e.readRule (ruleText r t u) = .ok (surfaceRule r t u) := by
  unfold Engine.readRule
  rw [hinputs, houtputs, read_ruleText]
  rfl

/-- All texts together are read as all rules. -/
theorem mapM_readRule : ruleTexts.mapM e.readRule = .ok surfaceRules := by
  rw [mapM_eq_ok_iff]
  unfold ruleTexts surfaceRules
  simp only [List.map_flatMap, List.map_map, Function.comp_def,
    readRule_ruleText hinputs houtputs]

/-- And all of them are about what is there. -/
theorem grounds_surfaceRules : ∀ rule ∈ (surfaceRules : List (Rule α)), e.Grounds rule := by
  intro rule hrule
  obtain ⟨r, _, hrule⟩ := List.mem_flatMap.mp hrule
  obtain ⟨t, _, hrule⟩ := List.mem_flatMap.mp hrule
  obtain ⟨u, _, rfl⟩ := List.mem_map.mp hrule
  exact (Engine.grounds_of_readRule (readRule_ruleText hinputs houtputs r t u)).1

end Reading

end Assembly

/-! ## §3. In floating point. -/

/-- Every word of the surface is a name, and every shape a proper one. -/
theorem residualTerms_proper : ∀ t ∈ (residualInput .cpu : Input Float).terms,
    IsName t.name ∧ t.shape.check.isOk = true := by
  decide

theorem errorTerms_proper : ∀ t ∈ (errorInput : Input Float).terms,
    IsName t.name ∧ t.shape.check.isOk = true := by
  decide

theorem deltaTerms_proper : ∀ t ∈ (deltaOutput .cpu : Output Float).terms,
    IsName t.name ∧ t.shape.check.isOk = true := by
  decide

theorem makeInput_residual (r : Resource) :
    makeInput (residualName r) 0.0 1.0 (ResidualTerm.all.map fun t => ⟨t.name, t.shape⟩)
      = .ok (residualInput r : Input Float) :=
  makeInput_ok (by cases r <;> decide) (if_pos (by decide)) residualTerms_proper

theorem makeInput_error :
    makeInput errorName (-1.0) 1.0 (ErrorTerm.all.map fun t => ⟨t.name, t.shape⟩)
      = .ok (errorInput : Input Float) :=
  makeInput_ok (by decide) (if_pos (by decide)) errorTerms_proper

theorem makeOutput_delta (r : Resource) :
    makeOutput (deltaName r) (-1.0) 1.0 (DeltaTerm.all.map fun t => ⟨t.name, t.shape⟩)
      = .ok (deltaOutput r : Output Float) :=
  makeOutput_ok (by cases r <;> decide) (if_pos (by decide)) deltaTerms_proper

/-- **The surface is what its words and texts come to.** -/
theorem assembleSurface_eq : (assembleSurface : Except _ (Engine Float)) = .ok surface := by
  unfold assembleSurface
  rw [makeInput_residual, makeInput_residual, makeInput_error, makeOutput_delta, makeOutput_delta]
  -- Each variable has a name that is still free when it is added.
  refine bind_eq_ok_iff.mpr ⟨residualInput .cpu, rfl, bind_eq_ok_iff.mpr
    ⟨_, (Engine.addInput_ok_iff _).mpr ⟨by decide, rfl⟩, ?_⟩⟩
  refine bind_eq_ok_iff.mpr ⟨residualInput .memory, rfl, bind_eq_ok_iff.mpr
    ⟨_, (Engine.addInput_ok_iff _).mpr ⟨by decide, rfl⟩, ?_⟩⟩
  refine bind_eq_ok_iff.mpr ⟨errorInput, rfl, bind_eq_ok_iff.mpr
    ⟨_, (Engine.addInput_ok_iff _).mpr ⟨by decide, rfl⟩, ?_⟩⟩
  refine bind_eq_ok_iff.mpr ⟨deltaOutput .cpu, rfl, bind_eq_ok_iff.mpr
    ⟨_, (Engine.addOutput_ok_iff _).mpr ⟨by decide, rfl⟩, ?_⟩⟩
  refine bind_eq_ok_iff.mpr ⟨deltaOutput .memory, rfl, bind_eq_ok_iff.mpr
    ⟨_, (Engine.addOutput_ok_iff _).mpr ⟨by decide, rfl⟩, ?_⟩⟩
  refine bind_eq_ok_iff.mpr ⟨surfaceRules, mapM_readRule rfl rfl, ?_⟩
  exact (Engine.addBlock_ok_iff _).mpr ⟨grounds_surfaceRules rfl rfl, rfl⟩

/-! ## §4. No cross-talk. -/

/-- The values of both resources are the same function of residual and error. -/
theorem value_response (r : Resource) (residual error : Float) :
    (response r residual error).value = (response .cpu residual error).value := by
  cases r <;> rfl

/-- **One surface for both resources, without cross-talk.**  The engine that the words and texts
come to answers all numbers, and there is one function that gives the change of each resource
from its own residual and the error, bit for bit; where no rule for the resource fires, the
change is undefined. -/
theorem surface_without_crosstalk :
    ∃ engine : Engine Float, assembleSurface = .ok engine ∧ ∃ g : Float → Float → Float,
      ∀ (residuals : PerResource Float) (error : Float),
        (∀ r, Scalar.isFinite (residuals.get r) = true) → Scalar.isFinite error = true →
        ∃ done, respond engine residuals error = .ok done
          ∧ ∀ r, ∃ v, done.output? (deltaName r) = some v
            ∧ v.value = g (residuals.get r) error
            ∧ (v.isActivated = false → v.value = Scalar.nan) := by
  refine ⟨surface, assembleSurface_eq, fun residual error => (response .cpu residual error).value,
    fun residuals error hresiduals herror => ?_⟩
  refine ⟨_, respond_surface residuals error hresiduals herror, fun r => ?_⟩
  refine ⟨response r (residuals.get r) error, ?_, value_response r _ _, fun hsilent => ?_⟩
  · cases r <;> rfl
  · unfold Output.isActivated at hsilent
    rw [Bool.not_eq_false'] at hsilent
    exact if_pos hsilent

/-- With the residuals exchanged the changes are exchanged. -/
theorem surface_exchanged :
    ∃ (engine done exchanged : Engine Float) (cpu memory : Float),
      assembleSurface = .ok engine
        ∧ respond engine ⟨0.05, 0.6⟩ 0.15 = .ok done
        ∧ respond engine ⟨0.6, 0.05⟩ 0.15 = .ok exchanged
        ∧ done.outputValue "DeltaC" = .ok cpu ∧ done.outputValue "DeltaM" = .ok memory
        ∧ exchanged.outputValue "DeltaC" = .ok memory ∧ exchanged.outputValue "DeltaM" = .ok cpu := by
  obtain ⟨engine, hassemble, g, hg⟩ := surface_without_crosstalk
  have hnumber : ∀ r, Scalar.isFinite ((⟨0.05, 0.6⟩ : PerResource Float).get r) = true := by
    intro r
    cases r <;> decide
  have hnumber' : ∀ r, Scalar.isFinite ((⟨0.6, 0.05⟩ : PerResource Float).get r) = true := by
    intro r
    cases r <;> decide
  have herror : Scalar.isFinite (0.15 : Float) = true := by decide
  obtain ⟨done, hdone, hvalues⟩ := hg _ _ hnumber herror
  obtain ⟨exchanged, hexchanged, hvalues'⟩ := hg _ _ hnumber' herror
  have hread : ∀ {e : Engine Float} {name : String} {v : Output Float} {x : Float},
      e.output? name = some v → v.value = x → e.outputValue name = .ok x := by
    intro e name v x hv hx
    unfold Engine.outputValue
    rw [hv, ← hx]
  obtain ⟨c, hc, hcpu, _⟩ := hvalues .cpu
  obtain ⟨m, hm, hmemory, _⟩ := hvalues .memory
  obtain ⟨c', hc', hcpu', _⟩ := hvalues' .cpu
  obtain ⟨m', hm', hmemory', _⟩ := hvalues' .memory
  exact ⟨engine, done, exchanged, g 0.05 0.15, g 0.6 0.15, hassemble, hdone, hexchanged,
    hread hc hcpu, hread hm hmemory, hread hc' hcpu', hread hm' hmemory'⟩

end Control

end CapacityControl
