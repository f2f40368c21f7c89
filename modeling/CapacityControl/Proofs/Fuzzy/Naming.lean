/-
  CapacityControl.Proofs.Fuzzy.Naming
  ───────────────────────────────────
  WHAT AN ENGINE HAS CAN BE NAMED.  The constructors that look at names are the only way
  to a checked engine (`Checked`), so all its names are accepted ones (`Checked.named`),
  and no two of its variables share one.  Looking a name up finds its owner, and every term
  that no earlier one of its variable hides can be put into the text of a rule
  (`Checked.nameable`).  With the laws of splitting and of names:
  `words_and_names_agree`.
-/
import CapacityControl.Proofs.Fuzzy.Assembly
import CapacityControl.Proofs.Fuzzy.Words

namespace CapacityControl.Fuzzy

open RuleText Text

variable {α : Type}

/-! ## §1. Engines built with the checking constructors. -/

/-- The name of a variable and those of its terms, all of them accepted. -/
def AreNames (name : String) (terms : List (Term α)) : Prop :=
  IsName name ∧ ∀ t ∈ terms, IsName t.name

theorem isName_of_checkName {name name' : String} (h : checkName name = .ok name') :
    IsName name' := by
  have hsame : name = name' := by
    unfold checkName at h
    split at h
    · cases h
    · split at h
      · cases h
      · exact Except.ok.inj h
  exact hsame ▸ h

theorem AreNames.withTerm {name : String} {terms : List (Term α)} (h : AreNames name terms)
    {t : Term α} (ht : IsName t.name) : AreNames name (terms ++ [t]) :=
  ⟨h.1, List.forall_mem_append.mpr ⟨h.2, List.forall_mem_singleton.mpr ht⟩⟩

section Constructors

variable [Scalar α] {name : String} {minimum maximum : α}

theorem Term.isName_of_new {shape : Shape α} {t : Term α} (h : Term.new name shape = .ok t) :
    IsName t.name := by
  obtain ⟨name', hname, h⟩ := bind_eq_ok_iff.mp h
  obtain ⟨shape', _, h⟩ := bind_eq_ok_iff.mp h
  cases h
  exact isName_of_checkName hname

theorem Input.areNames_of_new {v : Input α} (h : Input.new name minimum maximum = .ok v) :
    AreNames v.name v.terms := by
  obtain ⟨name', hname, h⟩ := bind_eq_ok_iff.mp h
  obtain ⟨_, _, h⟩ := bind_eq_ok_iff.mp h
  cases h
  exact ⟨isName_of_checkName hname, fun _ ht => absurd ht List.not_mem_nil⟩

theorem Output.areNames_of_new {v : Output α} (h : Output.new name minimum maximum = .ok v) :
    AreNames v.name v.terms := by
  obtain ⟨name', hname, h⟩ := bind_eq_ok_iff.mp h
  obtain ⟨_, _, h⟩ := bind_eq_ok_iff.mp h
  cases h
  exact ⟨isName_of_checkName hname, fun _ ht => absurd ht List.not_mem_nil⟩

end Constructors

namespace Engine

section Checking

variable [Scalar α]

mutual

/-- **A checked engine**: one that came about by operations, some of which may have been refused,
and whose variables were all built with the checking constructors. -/
inductive Checked : Engine α → Prop
  | new (name : String) : Checked (new name)
  | perform {e : Engine α} (h : Checked e) (op : Operation α)
      (hinputs : ∀ v ∈ op.addedInputs, CheckedInput v)
      (houtputs : ∀ v ∈ op.addedOutputs, CheckedOutput v) : Checked (e.perform op)

/-- **A checked input**: from the checking constructor or copied from a checked engine, with terms
from their checking constructor and any value. -/
inductive CheckedInput : Input α → Prop
  | new {name : String} {minimum maximum : α} {v : Input α}
      (h : Input.new name minimum maximum = .ok v) : CheckedInput v
  | copied {e : Engine α} {v : Input α} (h : Checked e) (hv : v ∈ e.inputs) : CheckedInput v
  | withTerm {v : Input α} (h : CheckedInput v) {name : String} {shape : Shape α} {t : Term α}
      (ht : Term.new name shape = .ok t) : CheckedInput (v.withTerm t)
  | withValue {v : Input α} (h : CheckedInput v) (value : α) :
      CheckedInput { v with value := value }

/-- **A checked output**: from the checking constructor or copied from a checked engine, with terms
from their checking constructor, and set up further. -/
inductive CheckedOutput : Output α → Prop
  | new {name : String} {minimum maximum : α} {v : Output α}
      (h : Output.new name minimum maximum = .ok v) : CheckedOutput v
  | copied {e : Engine α} {v : Output α} (h : Checked e) (hv : v ∈ e.outputs) : CheckedOutput v
  | withTerm {v : Output α} (h : CheckedOutput v) {name : String} {shape : Shape α} {t : Term α}
      (ht : Term.new name shape = .ok t) : CheckedOutput (v.withTerm t)
  | configured {v : Output α} (h : CheckedOutput v) (aggregation : SNorm) (centroid : Centroid)
      (fallback : α) :
      CheckedOutput { v with aggregation := aggregation, centroid := centroid, fallback := fallback }

end

mutual

/-- A checked engine is an engine that came about. -/
theorem Checked.reachable {e : Engine α} : Checked e → Reachable e
  | .new name => .new name
  | .perform h op _ houtputs => h.reachable.perform op fun v hv =>
    (houtputs v (by rw [hv]; exact List.mem_singleton_self v)).made

theorem CheckedOutput.made {v : Output α} : CheckedOutput v → MadeOutput v
  | .new h => .new h
  | .copied h hv => .copied h.reachable hv
  | .withTerm h _ => h.made.withTerm _
  | .configured h aggregation centroid fallback => h.made.configured aggregation centroid fallback

end

/-! ## §2. Their names are accepted. -/

variable {e : Engine α}

omit [Scalar α] in
/-- Which names an engine has is told by the names that rules may use. -/
theorem named_of_vocabularies (hinputs : e.inputVocabulary.Proper)
    (houtputs : e.outputVocabulary.Proper) : e.Named := by
  refine ⟨fun v hv => ?_, fun v hv => ?_⟩
  · obtain ⟨hname, hterms⟩ := hinputs _ (List.mem_map_of_mem hv)
    exact ⟨hname, fun t ht => hterms _ (List.mem_map_of_mem ht)⟩
  · obtain ⟨hname, hterms⟩ := houtputs _ (List.mem_map_of_mem hv)
    exact ⟨hname, fun t ht => hterms _ (List.mem_map_of_mem ht)⟩

/-- **One operation keeps the names accepted**, whether it is refused or not. -/
theorem Named.perform (h : e.Named) (op : Operation α)
    (hinputs : ∀ v ∈ op.addedInputs, AreNames v.name v.terms)
    (houtputs : ∀ v ∈ op.addedOutputs, AreNames v.name v.terms) : (e.perform op).Named := by
  refine perform_induction h op fun e' hop => ?_
  -- Rules may use the names that they could use before, and those of what is added.
  obtain ⟨hin, hout⟩ := map_attempt (fun v => (v.name, v.terms.map (·.name)))
    (fun v => (v.name, v.terms.map (·.name))) (fun _ _ => rfl) (fun _ _ _ => rfl) hop
  refine named_of_vocabularies ?_ ?_
  · have hsplit : e'.inputVocabulary
        = e.inputVocabulary ++ op.addedInputs.map fun v => (v.name, v.terms.map (·.name)) := hin
    rw [hsplit]
    refine List.forall_mem_append.mpr ⟨h.inputVocabulary, List.forall_mem_map.mpr fun v hv => ?_⟩
    exact ⟨(hinputs v hv).1, List.forall_mem_map.mpr (hinputs v hv).2⟩
  · have hsplit : e'.outputVocabulary
        = e.outputVocabulary ++ op.addedOutputs.map fun v => (v.name, v.terms.map (·.name)) := hout
    rw [hsplit]
    refine List.forall_mem_append.mpr ⟨h.outputVocabulary, List.forall_mem_map.mpr fun v hv => ?_⟩
    exact ⟨(houtputs v hv).1, List.forall_mem_map.mpr (houtputs v hv).2⟩

mutual

/-- **The names of a checked engine are accepted ones.** -/
theorem Checked.named {e : Engine α} : Checked e → e.Named
  | .new _ => ⟨fun _ hv => absurd hv List.not_mem_nil, fun _ hv => absurd hv List.not_mem_nil⟩
  | .perform h op hinputs houtputs =>
    h.named.perform op (fun v hv => (hinputs v hv).areNames) fun v hv => (houtputs v hv).areNames

theorem CheckedInput.areNames {v : Input α} : CheckedInput v → AreNames v.name v.terms
  | .new h => Input.areNames_of_new h
  | .copied h hv => h.named.inputs _ hv
  | .withTerm h ht => h.areNames.withTerm (Term.isName_of_new ht)
  | .withValue h _ => h.areNames

theorem CheckedOutput.areNames {v : Output α} : CheckedOutput v → AreNames v.name v.terms
  | .new h => Output.areNames_of_new h
  | .copied h hv => h.named.outputs _ hv
  | .withTerm h ht => h.areNames.withTerm (Term.isName_of_new ht)
  | .configured h _ _ _ => h.areNames

end

end Checking

end Engine

/-! ## §3. Looking names up. -/

/-- **A term that no earlier one hides**: the one at an index, of several of its name the first. -/
def Unshadowed (terms : List (Term α)) (index : Nat) (t : Term α) : Prop :=
  terms[index]? = some t ∧ ∀ other ∈ terms.take index, other.name ≠ t.name

theorem Unshadowed.termIndex?_eq {terms : List (Term α)} {index : Nat} {t : Term α}
    (h : Unshadowed terms index t) :
    termIndex? (terms.map (·.name)) t.name = some index := by
  refine termIndex?_eq_some_iff.mpr ⟨?_, fun name hname => ?_⟩
  · rw [List.getElem?_map, h.1]
    rfl
  · rw [← List.map_take] at hname
    obtain ⟨other, hother, rfl⟩ := List.mem_map.mp hname
    exact h.2 other hother

/-- Among variables that share no name every one is found by its name. -/
theorem variable?_of_nodup {β : Type} {vs : List β} {name : β → String}
    {terms : β → List (Term α)} (h : (vs.map name).Nodup) {index : Nat} {v : β}
    (hv : vs[index]? = some v) :
    Vocabulary.variable? (vs.map fun v => (name v, (terms v).map (·.name))) (name v)
      = some (index, (terms v).map (·.name)) := by
  refine Vocabulary.variable?_eq_some_iff.mpr ⟨?_, fun entry hentry hsame => ?_⟩
  · rw [List.getElem?_map, hv]
    rfl
  · -- An earlier variable of the name would have the place of this one.
    rw [← List.map_take] at hentry
    obtain ⟨other, hother, rfl⟩ := List.mem_map.mp hentry
    obtain ⟨j, hj, rfl⟩ := List.mem_take_iff_getElem.mp hother
    obtain ⟨hbefore, hlt⟩ := Nat.lt_min.mp hj
    have hnames : (vs.map name)[j]? = (vs.map name)[index]? := by
      rw [List.getElem?_map, List.getElem?_map, hv, List.getElem?_eq_getElem hlt]
      exact congrArg some hsame
    have hequal := (List.getElem?_inj (by rwa [List.length_map]) h).mp hnames
    exact hbefore.ne hequal

/-! ## §4. What can be named. -/

/-- The words of a rule that concludes from one term of an input to one of an output. -/
def plainWords (negated : Bool) (input term output concluded : String) : List String :=
  ["if", input, "is"] ++ (if negated then ["not"] else [])
    ++ [term, "then", output, "is", concluded]

/-- Names stand in a rule as words of their own. -/
theorem words_plainWords (negated : Bool) {input term output concluded : String}
    (hinput : IsName input) (hterm : IsName term) (houtput : IsName output)
    (hconcluded : IsName concluded) :
    words (" ".intercalate (plainWords negated input term output concluded))
      = plainWords negated input term output concluded := by
  refine words_intercalate fun w hw => .inl ?_
  have hnegation : ∀ w ∈ (if negated then ["not"] else []), IsWord w.toList := by
    cases negated with
    | _ => decide
  revert w
  unfold plainWords
  simp only [List.forall_mem_append, List.forall_mem_cons]
  have hnone : ∀ w ∈ ([] : List String), IsWord w.toList := fun _ hw => absurd hw List.not_mem_nil
  exact ⟨⟨⟨by decide, hinput.isWord, by decide, hnone⟩, hnegation⟩, hterm.isWord, by decide,
    houtput.isWord, by decide, hconcluded.isWord, hnone⟩

/-- Such words are a sentence. -/
theorem isSentence_plainWords [Scalar α] {inputs outputs : Vocabulary} (negated : Bool)
    {input term output concluded : String} {place place' : Nat × Nat}
    (h : Names inputs input term place) (h' : Names outputs output concluded place') :
    IsSentence inputs outputs (plainWords negated input term output concluded)
      (.prop ⟨place.1, place.2, negated⟩) [⟨place'.1, place'.2, false⟩] (1.0 : α) := by
  cases negated with
  | false => exact .rule (.single (.single (.affirmed h))) (.last h') .unweighted
  | true => exact .rule (.single (.single (.negated h))) (.last h') .unweighted

namespace Engine

variable [Scalar α]

/-- **An engine whose variables and terms can be named.**  The name of a variable is looked up
successfully, and so is that of a term that no earlier one hides; any two such terms, of an input
and of an output, are named in a rule that is read as the rule about just these two; and no rule
has other words than those of the language, names of the engine, and the numeral of its weight. -/
structure Nameable (e : Engine α) : Prop where
  inputs : ∀ {i : Nat} {v : Input α}, e.inputs[i]? = some v →
    e.inputVocabulary.variable? v.name = some (i, v.terms.map (·.name))
      ∧ ∀ j t, Unshadowed v.terms j t → Names e.inputVocabulary v.name t.name (i, j)
  outputs : ∀ {k : Nat} {y : Output α}, e.outputs[k]? = some y →
    e.outputVocabulary.variable? y.name = some (k, y.terms.map (·.name))
      ∧ ∀ l s, Unshadowed y.terms l s → Names e.outputVocabulary y.name s.name (k, l)
  rules : ∀ {i j k l : Nat} {v : Input α} {t : Term α} {y : Output α} {s : Term α} (negated : Bool),
    e.inputs[i]? = some v → Unshadowed v.terms j t →
    e.outputs[k]? = some y → Unshadowed y.terms l s →
    words (" ".intercalate (plainWords negated v.name t.name y.name s.name))
        = plainWords negated v.name t.name y.name s.name
      ∧ ∀ text, words text = plainWords negated v.name t.name y.name s.name →
        e.readRule text
          = .ok ⟨trimmed text, .prop ⟨i, j, negated⟩, [⟨k, l, false⟩], 1.0⟩
  closed : ∀ {text : String} {rule : Rule α}, e.readRule text = .ok rule → ∀ w ∈ words text,
    e.inputVocabulary.Knows w ∨ e.outputVocabulary.Knows w ∨ (Literal.read? w).isSome = true

/-- **Everything in a checked engine can be named**, but for terms behind others of their name. -/
theorem Checked.nameable {e : Engine α} (h : Checked e) : e.Nameable := by
  have hnamed := h.named
  obtain ⟨hinputNames, houtputNames, _⟩ := List.nodup_append.mp h.reachable.sound.names
  have hinputs : ∀ {i : Nat} {v : Input α}, e.inputs[i]? = some v →
      e.inputVocabulary.variable? v.name = some (i, v.terms.map (·.name)) :=
    fun hv => variable?_of_nodup hinputNames hv
  have houtputs : ∀ {k : Nat} {y : Output α}, e.outputs[k]? = some y →
      e.outputVocabulary.variable? y.name = some (k, y.terms.map (·.name)) :=
    fun hy => variable?_of_nodup houtputNames hy
  have hconditions : ∀ {i j : Nat} {v : Input α} {t : Term α}, e.inputs[i]? = some v →
      Unshadowed v.terms j t → Names e.inputVocabulary v.name t.name (i, j) :=
    fun hv ht => ⟨_, hinputs hv, ht.termIndex?_eq⟩
  have hconsequents : ∀ {k l : Nat} {y : Output α} {s : Term α}, e.outputs[k]? = some y →
      Unshadowed y.terms l s → Names e.outputVocabulary y.name s.name (k, l) :=
    fun hy hs => ⟨_, houtputs hy, hs.termIndex?_eq⟩
  refine ⟨fun hv => ⟨hinputs hv, fun _ _ ht => hconditions hv ht⟩,
    fun hy => ⟨houtputs hy, fun _ _ hs => hconsequents hy hs⟩,
    fun negated hv ht hy hs => ?_, fun hread => ?_⟩
  · obtain ⟨hinput, hterm⟩ := (hconditions hv ht).isName hnamed.inputVocabulary
    obtain ⟨houtput, hconcluded⟩ := (hconsequents hy hs).isName hnamed.outputVocabulary
    refine ⟨words_plainWords negated hinput hterm houtput hconcluded, fun text hwords => ?_⟩
    refine ((readRule_ok_iff_sentence e hnamed text).1 _).mpr ⟨rfl, ?_⟩
    rw [hwords]
    exact isSentence_plainWords negated (hconditions hv ht) (hconsequents hy hs)
  · obtain ⟨_, hsentence⟩ := isSentence_of_readWords (mapError_eq_ok_iff.mp hread)
    exact hsentence.knows

/-- **Words and names agree.**  Splitting keeps its laws on every text, every text that is accepted
as a name stands alone, and whatever an engine from the checking constructors has can be named in
the rules that it reads. -/
theorem words_and_names_agree :
    (∀ text, Splits text (words text)) ∧ (∀ name, IsName name → StandsAlone name)
      ∧ ∀ e : Engine α, Checked e → e.Nameable :=
  ⟨splits_words, fun _ h => h.standsAlone, fun _ h => h.nameable⟩

/-- An input for trials: its name has a dot in it, and its last term the name of the first. -/
def namingInput : Input Extended :=
  ⟨"cpu_res.2", 0.0, 1.0, [⟨"LOW", .ramp 1.0 0.0⟩, ⟨"HIGH", .ramp 0.0 1.0⟩,
    ⟨"LOW", .ramp 0.5 0.0⟩], Scalar.nan⟩

/-- An output for trials, with one term. -/
def namingOutput : Output Extended :=
  ⟨"Y", 0.0, 1.0, [⟨"UP", .ramp 0.0 1.0⟩], .maximum, .standard, Scalar.nan, [], Scalar.nan⟩

/-- An engine for trials, with both. -/
def naming : Engine Extended :=
  ((new "naming").perform (.addInput namingInput)).perform (.addOutput namingOutput)

theorem checked_naming : Checked naming := by
  have hnewInput : Input.new "cpu_res.2" (0.0 : Extended) 1.0
      = .ok ⟨"cpu_res.2", 0.0, 1.0, [], Scalar.nan⟩ :=
    Input.new_of_ok (by decide +kernel) (by decide +kernel)
  have hnewOutput : Output.new "Y" (0.0 : Extended) 1.0
      = .ok ⟨"Y", 0.0, 1.0, [], .maximum, .standard, Scalar.nan, [], Scalar.nan⟩ :=
    Output.new_of_ok (by decide +kernel) (by decide +kernel)
  have hterm (name : String) (shape : Shape Extended) (hname : IsName name)
      (hshape : shape.check.isOk = true) : Term.new name shape = .ok ⟨name, shape⟩ :=
    Term.new_of_isOk hname hshape
  have hinput : CheckedInput namingInput :=
    (((CheckedInput.new hnewInput).withTerm
      (hterm "LOW" (.ramp 1.0 0.0) (by decide +kernel) (by decide +kernel))).withTerm
      (hterm "HIGH" (.ramp 0.0 1.0) (by decide +kernel) (by decide +kernel))).withTerm
      (hterm "LOW" (.ramp 0.5 0.0) (by decide +kernel) (by decide +kernel))
  have houtput : CheckedOutput namingOutput :=
    (CheckedOutput.new hnewOutput).withTerm
      (hterm "UP" (.ramp 0.0 1.0) (by decide +kernel) (by decide +kernel))
  refine .perform (.perform (.new "naming") (.addInput namingInput) ?_ ?_)
    (.addOutput namingOutput) ?_ ?_
  · exact List.forall_mem_singleton.mpr hinput
  · exact fun _ hv => absurd hv List.not_mem_nil
  · exact fun _ hv => absurd hv List.not_mem_nil
  · exact List.forall_mem_singleton.mpr houtput

/-- A name between parentheses and blanks, and a rule of a checked engine that names what it has. -/
theorem words_and_names_agree_naming :
    words "if(cpu_res.2\tis" = ["if", "(", "cpu_res.2", "is"]
      ∧ Checked naming
      ∧ naming.readRule "if cpu_res.2 is not HIGH then Y is UP"
        = .ok ⟨"if cpu_res.2 is not HIGH then Y is UP", .prop ⟨0, 1, true⟩, [⟨0, 0, false⟩], 1.0⟩ := by
  obtain ⟨_, hnames, hengines⟩ := words_and_names_agree (α := Extended)
  refine ⟨?_, checked_naming, ?_⟩
  · have hlast : "if(".toList.getLast? = some '(' := by decide
    have hfirst : "\tis".toList.head? = some '\t' := by decide
    have hopen : ∀ c ∈ "if(".toList.getLast?, isBlank c = true ∨ isParenthesis c = true := by
      rw [hlast]
      rintro _ ⟨⟩
      exact Or.inr rfl
    have hblank : ∀ c ∈ "\tis".toList.head?, isBlank c = true ∨ isParenthesis c = true := by
      rw [hfirst]
      rintro _ ⟨⟩
      exact Or.inl (by decide)
    have hname := (hnames "cpu_res.2" (by decide +kernel)).between "if(" "\tis" hopen hblank
    have hbefore : words "if(" = ["if", "("] := by decide +kernel
    have hafter : words "\tis" = ["is"] := by decide +kernel
    rw [hbefore, hafter] at hname
    exact hname
  · have hhigh : Unshadowed namingInput.terms 1 ⟨"HIGH", .ramp 0.0 1.0⟩ :=
      ⟨rfl, by simp [namingInput]⟩
    have hup : Unshadowed namingOutput.terms 0 ⟨"UP", .ramp 0.0 1.0⟩ :=
      ⟨rfl, by simp⟩
    have hread := ((hengines naming checked_naming).rules true (i := 0) (k := 0) rfl hhigh rfl hup).2
      "if cpu_res.2 is not HIGH then Y is UP" (by decide +kernel)
    have htrimmed : trimmed "if cpu_res.2 is not HIGH then Y is UP"
        = "if cpu_res.2 is not HIGH then Y is UP" := by decide +kernel
    rw [htrimmed] at hread
    exact hread

end Engine

end CapacityControl.Fuzzy
