/-
  CapacityControl.Proofs.Fuzzy.Sentence
  ─────────────────────────────────────
  READING ACCEPTS EXACTLY THE SENTENCES.  A rule is `if`, a condition, `then`,
  consequents, and perhaps a weight.  With the conditions of `Proofs.Fuzzy.Condition` and
  the same two directions for consequents (`areConsequents_of_read`, `consequents_read`)
  and weights (`ending_ok_iff`): a text is read as a rule if and only if its words are a
  sentence that means that rule, and every other text is refused with its fault
  (`readRule_ok_iff_sentence`).
-/
import CapacityControl.Fuzzy.Engine
import CapacityControl.Proofs.Fuzzy.Condition
import CapacityControl.Scalar.Extended

namespace CapacityControl.Fuzzy

variable {α : Type}

namespace RuleText

/-! ## §1. Consequents and weights. -/

section Consequents

variable {v : Vocabulary} {ws rest : List String} {ps : List Proposition}

/-- **A consequent that is read** is the last one, or `and` and another one follow. -/
theorem consequents_ok (h : (consequents v ws : Except (Fault α) _) = .ok (ps, rest)) :
    ∃ owner term place rest', ws = [owner, "is", term] ++ rest' ∧ Names v owner term place
      ∧ ((ps = [⟨place.1, place.2, false⟩] ∧ rest = rest')
        ∨ ∃ us qs, rest' = "and" :: us ∧ ps = ⟨place.1, place.2, false⟩ :: qs
          ∧ (consequents v us : Except (Fault α) _) = .ok (qs, rest)) := by
  match ws, h with
  | [], h => cases h
  | owner :: ws, h =>
    unfold consequents at h
    cases hvar : v.variable? owner with
    | none =>
      rw [hvar] at h
      cases h
    | some found =>
      obtain ⟨var, terms⟩ := found
      rw [hvar] at h
      match ws, h with
      | [], h => cases h
      | [word], h =>
        dsimp only at h
        split at h
        · cases h
        · cases h
      | word :: term :: rest', h =>
        dsimp only at h
        by_cases his : word = "is"
        · rw [if_neg (not_not_intro his)] at h
          by_cases hnot : term = "not"
          · rw [if_pos hnot] at h
            cases h
          · rw [if_neg hnot] at h
            cases hterm : (resolveTerm owner terms term : Except (Fault α) Nat) with
            | error e =>
              rw [hterm] at h
              cases h
            | ok j =>
              rw [hterm] at h
              refine ⟨owner, term, (var, j), rest', by rw [his]; rfl,
                ⟨terms, hvar, resolveTerm_ok.mp hterm⟩, ?_⟩
              match rest', h with
              | [], h =>
                cases h
                exact Or.inl ⟨rfl, rfl⟩
              | next :: us, h =>
                dsimp only at h
                by_cases hand : next = "and"
                · rw [if_pos hand] at h
                  obtain ⟨⟨qs, rest'⟩, hread, heq⟩ := map_eq_ok_iff.mp h
                  cases heq
                  exact Or.inr ⟨us, qs, by rw [hand], rfl, hread⟩
                · rw [if_neg hand] at h
                  cases h
                  exact Or.inl ⟨rfl, rfl⟩
        · rw [if_pos his] at h
          cases h

/-- **Consequents that are read** are those of the grammar.  The words that are left get fewer
with every one. -/
theorem areConsequents_of_read (size : Nat) (hsize : ws.length < size)
    (h : (consequents v ws : Except (Fault α) _) = .ok (ps, rest)) :
    ∃ us, ws = us ++ rest ∧ AreConsequents v us ps := by
  induction size generalizing ws ps with
  | zero => exact absurd hsize (Nat.not_lt_zero _)
  | succ size ih =>
    obtain ⟨owner, term, place, rest', rfl, hnames, ⟨rfl, rfl⟩ | ⟨us, qs, rfl, rfl, hmore⟩⟩ :=
      consequents_ok h
    · exact ⟨_, rfl, .last hnames⟩
    · -- An `and` after a consequent always announces another one, never the end.
      have hless : us.length < size := by
        simp only [List.length_append, List.length_cons, List.length_nil] at hsize
        omega
      obtain ⟨read, rfl, hread⟩ := ih hless hmore
      exact ⟨[owner, "is", term] ++ "and" :: read, by simp, .more hnames hread⟩

/-- A consequent that is named is read, and what follows decides whether another one is. -/
theorem consequents_named (hv : v.Proper) {owner term : String} {place : Nat × Nat}
    (h : Names v owner term place) (rest : List String) :
    (consequents v ([owner, "is", term] ++ rest) : Except (Fault α) _)
      = match rest with
        | [] => .ok ([⟨place.1, place.2, false⟩], [])
        | next :: us =>
          if next = "and" then
            (consequents v us).map fun (ps, rest) => (⟨place.1, place.2, false⟩ :: ps, rest)
          else .ok ([⟨place.1, place.2, false⟩], next :: us) := by
  obtain ⟨_, hterm⟩ := h.isName hv
  obtain ⟨terms, hvar, hindex⟩ := h
  show consequents v (owner :: "is" :: term :: rest) = _
  rw [consequents.eq_def]
  dsimp only
  rw [hvar]
  dsimp only
  rw [if_neg (not_not_intro rfl), if_neg hterm.ne_not]
  cases rest with
  | nil => simp only [resolveTerm_ok.mpr hindex]
  | cons next us => simp only [resolveTerm_ok.mpr hindex]

/-- **Consequents of the grammar** are read up to a word other than `and`. -/
theorem consequents_read (hv : v.Proper) (h : AreConsequents v ws ps)
    (hrest : rest.head? ≠ some "and") :
    (consequents v (ws ++ rest) : Except (Fault α) _) = .ok (ps, rest) := by
  induction h with
  | last h =>
    rw [consequents_named hv h]
    cases rest with
    | nil => rfl
    | cons next us => exact if_neg fun hand => hrest (by rw [hand]; rfl)
  | @more owner term place ws ps h _ ih =>
    show consequents v ([owner, "is", term] ++ "and" :: (ws ++ rest)) = _
    rw [consequents_named hv h]
    dsimp only
    rw [if_pos rfl, ih]
    rfl

end Consequents

section Ending

variable [Scalar α]

theorem weight_ok_iff (word : String) (w : α) :
    weight word = .ok w ↔ ∃ literal, Literal.read? word = some literal
      ∧ Scalar.inUnit (Scalar.ofLiteral literal : α) = true ∧ Scalar.ofLiteral literal = w := by
  unfold weight
  cases hread : Literal.read? word with
  | none => simp
  | some literal =>
    by_cases hunit : Scalar.inUnit (Scalar.ofLiteral literal : α) = true
    · simp [hunit]
    · simp [hunit]

/-- **What may follow the consequents** is what the grammar allows. -/
theorem ending_ok_iff (es : List String) (w : α) : ending es = .ok w ↔ IsEnding es w := by
  constructor
  · intro h
    match es, h with
    | [], h =>
      cases h
      exact .unweighted
    | word :: es, h =>
      unfold ending at h
      dsimp only at h
      by_cases hwith : word = "with"
      · rw [if_neg (not_not_intro hwith)] at h
        match es, h with
        | [], h => cases h
        | text :: rest, h =>
          obtain ⟨value, hvalue, h⟩ := bind_eq_ok_iff.mp h
          obtain ⟨literal, hread, hunit, rfl⟩ := (weight_ok_iff text value).mp hvalue
          cases rest with
          | nil =>
            cases h
            rw [hwith]
            exact .weighted hread hunit
          | cons extra rest => cases h
      · rw [if_pos hwith] at h
        cases h
  · intro h
    cases h with
    | unweighted => rfl
    | @weighted word literal hread hunit =>
      have hweight : weight word = .ok (Scalar.ofLiteral literal : α) :=
        (weight_ok_iff word _).mpr ⟨literal, hread, hunit, rfl⟩
      unfold ending
      dsimp only
      rw [if_neg (not_not_intro rfl), hweight]
      rfl

end Ending

/-! ## §2. Rules. -/

theorem expect_ok_iff (word : String) (ws rest : List String) :
    (expect word ws : Except (Fault α) _) = .ok rest ↔ ws = word :: rest := by
  cases ws with
  | nil => simp [expect]
  | cons found ws =>
    by_cases hfound : found = word
    · simp [expect, hfound]
    · simp [expect, hfound]

section Rules

variable [Scalar α] {inputs outputs : Vocabulary} {text : String} {ws : List String}

/-- What may follow the consequents does not begin with `and`. -/
theorem IsEnding.head?_ne_and {es : List String} {w : α} (h : IsEnding es w) :
    es.head? ≠ some "and" := by
  cases h with
  | unweighted => simp
  | weighted _ _ => simp

/-- **Words that are read as a rule** are a sentence, and mean that rule. -/
theorem isSentence_of_readWords {rule : Rule α}
    (h : readWords inputs outputs text ws = .ok rule) :
    rule.text = text
      ∧ IsSentence inputs outputs ws rule.condition rule.consequents rule.weight := by
  obtain ⟨afterIf, hif, h⟩ := bind_eq_ok_iff.mp h
  obtain ⟨⟨condition, beforeThen⟩, hcondition, h⟩ := bind_eq_ok_iff.mp h
  obtain ⟨afterThen, hthen, h⟩ := bind_eq_ok_iff.mp h
  obtain ⟨⟨ps, es⟩, hps, h⟩ := bind_eq_ok_iff.mp h
  obtain ⟨w, hw, h⟩ := bind_eq_ok_iff.mp h
  cases h
  cases (expect_ok_iff _ _ _).mp hif
  cases (expect_ok_iff _ _ _).mp hthen
  obtain ⟨read, rfl, hread⟩ := isDisjunction_of_operand hcondition
  obtain ⟨us, rfl, hus⟩ := areConsequents_of_read (afterThen.length + 1) (Nat.lt_succ_self _) hps
  refine ⟨rfl, ?_⟩
  have hsentence := IsSentence.rule hread hus ((ending_ok_iff es w).mp hw)
  simpa using hsentence

/-- **A sentence is read as the rule that it means.** -/
theorem readWords_sentence (hinputs : inputs.Proper) (houtputs : outputs.Proper) {c : Condition}
    {ps : List Proposition} {w : α} (h : IsSentence inputs outputs ws c ps w) :
    readWords inputs outputs text ws = .ok ⟨text, c, ps, w⟩ := by
  obtain @⟨ws, us, es, _, _, _, condition, consequents, ending⟩ := h
  refine bind_eq_ok_iff.mpr ⟨ws ++ "then" :: (us ++ es), ?_, ?_⟩
  · exact (expect_ok_iff _ _ _).mpr (by simp)
  refine bind_eq_ok_iff.mpr ⟨_, operand_disjunction hinputs condition _, ?_⟩
  refine bind_eq_ok_iff.mpr ⟨_, (expect_ok_iff _ _ _).mpr rfl, ?_⟩
  refine bind_eq_ok_iff.mpr ⟨_, consequents_read houtputs consequents ending.head?_ne_and, ?_⟩
  exact bind_eq_ok_iff.mpr ⟨w, (ending_ok_iff es w).mpr ending, rfl⟩

/-- The weight of a sentence is a degree. -/
theorem IsSentence.inUnit (hone : Scalar.inUnit (1.0 : α) = true) {c : Condition}
    {ps : List Proposition} {w : α} (h : IsSentence inputs outputs ws c ps w) :
    Scalar.inUnit w = true := by
  cases h with
  | rule _ _ ending =>
    cases ending with
    | unweighted => exact hone
    | weighted _ hunit => exact hunit

end Rules

end RuleText

/-! ## §3. Engines. -/

namespace Engine

open RuleText

/-- **Every variable and every term** of the engine has a name that is accepted as one. -/
structure Named (e : Engine α) : Prop where
  inputs : ∀ v ∈ e.inputs, IsName v.name ∧ ∀ t ∈ v.terms, IsName t.name
  outputs : ∀ v ∈ e.outputs, IsName v.name ∧ ∀ t ∈ v.terms, IsName t.name

theorem Named.inputVocabulary {e : Engine α} (h : e.Named) : e.inputVocabulary.Proper := by
  intro entry hentry
  obtain ⟨v, hv, rfl⟩ := List.mem_map.mp hentry
  refine ⟨(h.inputs v hv).1, fun name hname => ?_⟩
  obtain ⟨t, ht, rfl⟩ := List.mem_map.mp hname
  exact (h.inputs v hv).2 t ht

theorem Named.outputVocabulary {e : Engine α} (h : e.Named) : e.outputVocabulary.Proper := by
  intro entry hentry
  obtain ⟨v, hv, rfl⟩ := List.mem_map.mp hentry
  refine ⟨(h.outputs v hv).1, fun name hname => ?_⟩
  obtain ⟨t, ht, rfl⟩ := List.mem_map.mp hname
  exact (h.outputs v hv).2 t ht

/-- **Reading accepts exactly the sentences.**  Over an engine whose variables and terms have
accepted names, a text is read as a rule if and only if its words are a sentence; the rule is
the one that the sentence means and shows the text without the blanks around it.  Every other
text is refused, and the refusal carries the text as it was given. -/
theorem readRule_ok_iff_sentence [Scalar α] (e : Engine α) (named : e.Named) (text : String) :
    (∀ rule, e.readRule text = .ok rule ↔ rule.text = trimmed text
        ∧ IsSentence e.inputVocabulary e.outputVocabulary (words text) rule.condition
            rule.consequents rule.weight)
      ∧ ((¬∃ c ps w, IsSentence e.inputVocabulary e.outputVocabulary (words text) c ps (w : α))
        → ∃ fault, e.readRule text = .error (.unreadable text fault)) := by
  have hread : ∀ rule, e.readRule text = .ok rule ↔ rule.text = trimmed text
      ∧ IsSentence e.inputVocabulary e.outputVocabulary (words text) rule.condition
          rule.consequents rule.weight := by
    intro rule
    refine mapError_eq_ok_iff.trans ⟨isSentence_of_readWords, fun ⟨htext, hsentence⟩ => ?_⟩
    show readWords _ _ (trimmed text) (words text) = .ok rule
    rw [← htext]
    exact readWords_sentence named.inputVocabulary named.outputVocabulary hsentence
  refine ⟨hread, fun hnone => ?_⟩
  cases hresult : (RuleText.read e.inputVocabulary e.outputVocabulary text : Except (Fault α) _) with
  | ok rule =>
    obtain ⟨_, hsentence⟩ := isSentence_of_readWords hresult
    exact absurd ⟨_, _, _, hsentence⟩ hnone
  | error fault =>
    refine ⟨fault, ?_⟩
    unfold readRule
    rw [hresult]
    rfl

/-- An engine for trials: two inputs and an output. -/
def trial : Engine Extended where
  name := "trial"
  inputs := ["A", "B"].map fun name =>
    ⟨name, 0.0, 1.0, [⟨"LOW", .ramp 1.0 0.0⟩, ⟨"HIGH", .ramp 0.0 1.0⟩], Scalar.nan⟩
  outputs := [⟨"Y", 0.0, 1.0, [⟨"UP", .ramp 0.0 1.0⟩], .maximum, .standard, Scalar.nan, [],
    Scalar.nan⟩]
  blocks := []

/-- A text with parentheses, a negation and a weight is read as the rule that it means. -/
theorem readRule_trial :
    trial.Named ∧ trial.readRule "if (A is LOW or B is not HIGH) and B is LOW then Y is UP with 1"
      = .ok ⟨"if (A is LOW or B is not HIGH) and B is LOW then Y is UP with 1",
          .and (.or (.prop ⟨0, 0, false⟩) (.prop ⟨1, 1, true⟩)) (.prop ⟨1, 0, false⟩),
          [⟨0, 0, false⟩], Scalar.ofLiteral (.decimal false 1 0)⟩ := by
  have hnamed : trial.Named := ⟨by decide +kernel, by decide +kernel⟩
  refine ⟨hnamed, ((readRule_ok_iff_sentence trial hnamed _).1 _).mpr ⟨by decide +kernel, ?_⟩⟩
  have hwords : words "if (A is LOW or B is not HIGH) and B is LOW then Y is UP with 1"
      = ["if", "(", "A", "is", "LOW", "or", "B", "is", "not", "HIGH", ")", "and", "B", "is",
        "LOW", "then", "Y", "is", "UP", "with", "1"] := by
    decide +kernel
  have hA : Names trial.inputVocabulary "A" "LOW" (0, 0) := ⟨["LOW", "HIGH"], by decide +kernel⟩
  have hB : Names trial.inputVocabulary "B" "LOW" (1, 0) := ⟨["LOW", "HIGH"], by decide +kernel⟩
  have hB' : Names trial.inputVocabulary "B" "HIGH" (1, 1) :=
    ⟨["LOW", "HIGH"], by decide +kernel⟩
  have hY : Names trial.outputVocabulary "Y" "UP" (0, 0) := ⟨["UP"], by decide +kernel⟩
  rw [hwords]
  exact .rule (.single (.join (.single (.group (.join (.single (.single (.affirmed hA)))
    (.single (.negated hB'))))) (.affirmed hB))) (.last hY)
    (.weighted (by decide +kernel) (by decide +kernel))

end Engine

end CapacityControl.Fuzzy
