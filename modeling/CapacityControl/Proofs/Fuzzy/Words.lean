/-
  CapacityControl.Proofs.Fuzzy.Words
  ──────────────────────────────────
  WHAT WORDS ARE, AND THAT NAMES ARE WORDS.  Splitting a text loses nothing but blanks,
  makes nothing but words and lone parentheses, and has nothing left to do on its own
  words (`splits_words`).  Names are spelled with letters and numerals, of which the tables
  know none that is a blank (`IsName.isWord`), so splitting leaves a name whole wherever
  it stands by itself, and the words of the language are no names (`IsName.standsAlone`).
  Every other word of a sentence is a name or a numeral (`IsSentence.knows`).
-/
import CapacityControl.Proofs.Fuzzy.Spacing

namespace CapacityControl

/-! ## §1. Tables without a common character. -/

namespace Text

/-- No range of the one table touches a range of the other. -/
def Ranges.Apart (r s : Ranges) : Prop := ∀ a ∈ r, ∀ b ∈ s, a.2 < b.1 ∨ b.2 < a.1

instance (r s : Ranges) : Decidable (r.Apart s) :=
  inferInstanceAs (Decidable (∀ a ∈ r, ∀ b ∈ s, a.2 < b.1 ∨ b.2 < a.1))

theorem Ranges.holds_iff {r : Ranges} {c : Char} :
    r.holds c = true ↔ ∃ a ∈ r, a.1 ≤ c.toNat ∧ c.toNat ≤ a.2 := by
  unfold Ranges.holds
  simp only [List.any_eq_true, Bool.and_eq_true, decide_eq_true_eq]

theorem Ranges.Apart.not_holds {r s : Ranges} (h : r.Apart s) {c : Char} (hc : r.holds c = true) :
    s.holds c = false := by
  refine Bool.eq_false_iff.mpr fun hc' => ?_
  obtain ⟨a, ha, hlow, hhigh⟩ := holds_iff.mp hc
  obtain ⟨b, hb, hlow', hhigh'⟩ := holds_iff.mp hc'
  rcases h a ha b hb with hleft | hright
  · omega
  · omega

/-- **No letter and no numeral is a blank.** -/
theorem isBlank_of_letterOrNumeral {c : Char} (hc : isLetterOrNumeral c = true) :
    isBlank c = false := by
  have hletters : letterRanges.Apart blankRanges := by decide +kernel
  have hnumerals : numeralRanges.Apart blankRanges := by decide +kernel
  rcases Bool.or_eq_true_iff.mp hc with hletter | hnumeral
  · exact hletters.not_holds hletter
  · exact hnumerals.not_holds hnumeral

end Text

namespace Fuzzy

namespace RuleText

open Text

/-! ## §2. What splitting makes of a text. -/

section Pieces

variable {w cs : List Char} {ws : List (List Char)}

theorem Spaced.isPiece (h : Spaced ws cs) : ∀ w ∈ ws, IsPiece w := by
  induction h with
  | nothing => exact fun _ hw => absurd hw List.not_mem_nil
  | blank _ _ ih => exact ih
  | parenthesis hc _ ih => exact List.forall_mem_cons.mpr ⟨.inr ⟨_, hc, rfl⟩, ih⟩
  | word hw _ _ ih => exact List.forall_mem_cons.mpr ⟨.inl hw, ih⟩

theorem IsPiece.ne_nil (h : IsPiece w) : w ≠ [] := by
  rcases h with hw | ⟨c, _, rfl⟩
  · exact hw.1
  · exact List.cons_ne_nil _ _

theorem IsPiece.isBlank (h : IsPiece w) : ∀ c ∈ w, isBlank c = false := by
  rcases h with hw | ⟨c, hc, rfl⟩
  · exact fun c hc => (continuesWord_iff.mp (hw.2 c hc)).1
  · exact List.forall_mem_singleton.mpr (isBlank_of_parenthesis hc)

/-- **Nothing is lost but blanks.** -/
theorem Spaced.flatten_eq (h : Spaced ws cs) : ws.flatten = cs.filter (!isBlank ·) := by
  induction h with
  | nothing => rfl
  | blank hc _ ih => rw [List.filter_cons_of_neg (by simp [hc]), ih]
  | parenthesis hc _ ih =>
    rw [List.filter_cons_of_pos (by simp [isBlank_of_parenthesis hc]), List.flatten_cons, ih]
    rfl
  | @word w ws cs hw _ _ ih =>
    have hkept : w.filter (!isBlank ·) = w :=
      List.filter_eq_self.mpr fun c hc => by simp [IsPiece.isBlank (.inl hw) c hc]
    rw [List.filter_append, hkept, List.flatten_cons, ih]

end Pieces

/-- **The laws of splitting** a text into words: every word is a lone parenthesis or has none,
and is not empty; the words have no blanks, and together all the rest of the text; and with single
blanks between them they are split into themselves. -/
structure Splits (text : String) (ws : List String) : Prop where
  nonempty : ∀ w ∈ ws, w ≠ ""
  unblank : ∀ w ∈ ws, ∀ c ∈ w.toList, isBlank c = false
  parentheses : ∀ w ∈ ws, (w = "(" ∨ w = ")") ∨ ∀ c ∈ w.toList, isParenthesis c = false
  joined : String.join ws = String.ofList (text.toList.filter (!isBlank ·))
  again : words (" ".intercalate ws) = ws

/-- The words of a text are pieces of it. -/
theorem isPiece_words (text : String) : ∀ w ∈ words text, IsPiece w.toList :=
  fun _ hw => (shows_words text).isPiece _ (List.mem_map_of_mem hw)

/-- **Splitting keeps its laws** on every text. -/
theorem splits_words (text : String) : Splits text (words text) := by
  have hpieces := isPiece_words text
  refine ⟨fun w hw hempty => ?_, fun w hw => (hpieces w hw).isBlank, fun w hw => ?_, ?_,
    words_intercalate hpieces⟩
  · exact (hpieces w hw).ne_nil (by rw [hempty]; rfl)
  · rcases hpieces w hw with hword | ⟨c, hc, hlone⟩
    · exact Or.inr fun c hc => (continuesWord_iff.mp (hword.2 c hc)).2
    · refine Or.inl ((isParenthesis_iff.mp hc).imp ?_ ?_)
      · rintro rfl
        exact String.toList_inj.mp hlone
      · rintro rfl
        exact String.toList_inj.mp hlone
  · refine String.toList_inj.mp ?_
    rw [String.toList_join, String.toList_ofList, ← (shows_words text).flatten_eq, List.flatMap_def]

/-! ## §3. Names are words. -/

/-- What a name may go on with goes on in a word. -/
theorem continuesWord_of_continuesName {c : Char} (hc : continuesName c = true) :
    continuesWord c = true := by
  refine continuesWord_iff.mpr ⟨?_, Bool.eq_false_iff.mpr fun hparenthesis => ?_⟩
  · rcases Bool.or_eq_true_iff.mp hc with hc | hdot
    · rcases Bool.or_eq_true_iff.mp hc with hc | hunder
      · exact isBlank_of_letterOrNumeral hc
      · rw [beq_iff_eq.mp hunder]
        decide
    · rw [beq_iff_eq.mp hdot]
      decide
  · rcases isParenthesis_iff.mp hparenthesis with rfl | rfl
    · exact absurd hc (by decide +kernel)
    · exact absurd hc (by decide +kernel)

/-- **A name is a word.** -/
theorem IsName.isWord {name : String} (h : IsName name) : IsWord name.toList := by
  have hspells := ((isName_iff name).mp h).1
  generalize name.toList = cs at hspells ⊢
  cases cs with
  | nil => cases hspells
  | cons c cs =>
    obtain ⟨hbegins, hgoes⟩ := Bool.and_eq_true_iff.mp hspells
    have hfirst : continuesName c = true := by
      unfold beginsName at hbegins
      unfold continuesName isLetterOrNumeral
      rcases Bool.or_eq_true_iff.mp hbegins with hletter | hunder
      · simp [hletter]
      · simp [hunder]
    refine ⟨List.cons_ne_nil _ _, List.forall_mem_cons.mpr ⟨?_, fun d hd => ?_⟩⟩
    · exact continuesWord_of_continuesName hfirst
    · exact continuesWord_of_continuesName (List.all_eq_true.mp hgoes d hd)

/-- **The words of two texts** one behind the other are those of both, if no word of the first goes
on in the second. -/
theorem words_append {text text' : String}
    (hseam : (∀ c ∈ text.toList.getLast?, continuesWord c = false)
      ∨ ∀ c ∈ text'.toList.head?, continuesWord c = false) :
    words (text ++ text') = words text ++ words text' := by
  refine words_eq_iff.mpr ?_
  unfold Shows
  rw [List.map_append, String.toList_append]
  exact Spaced.append (shows_words text) (shows_words text') hseam

/-- A word is the only word of itself. -/
theorem words_word {w : String} (hw : IsWord w.toList) : words w = [w] := by
  have hshown : Spaced [w.toList] (w.toList ++ []) := .word hw nofun .nothing
  rw [List.append_nil] at hshown
  exact words_eq_iff.mpr hshown

/-- The words of the language, to which reading gives a meaning of their own. -/
def grammarWords : List String := ["if", "then", "is", "and", "or", "not", "with", "(", ")"]

/-- **A name that stands alone**: splitting leaves it whole, by itself and between any two texts
that do not go on with it, and it is no word of the language. -/
structure StandsAlone (name : String) : Prop where
  alone : words name = [name]
  between : ∀ before after : String,
    (∀ c ∈ before.toList.getLast?, isBlank c = true ∨ isParenthesis c = true) →
    (∀ c ∈ after.toList.head?, isBlank c = true ∨ isParenthesis c = true) →
    words (before ++ name ++ after) = words before ++ name :: words after
  ordinary : name ∉ grammarWords

/-- Every word of the language is reserved or no name to begin with. -/
theorem IsName.not_mem_grammarWords {name : String} (h : IsName name) : name ∉ grammarWords := by
  intro hmem
  have hnone : ∀ w ∈ grammarWords, ¬IsName w := by decide +kernel
  exact hnone name hmem h

/-- **Every name stands alone.** -/
theorem IsName.standsAlone {name : String} (h : IsName name) : StandsAlone name := by
  have halone := words_word h.isWord
  refine ⟨halone, fun before after hbefore hafter => ?_, h.not_mem_grammarWords⟩
  have hfront : words (before ++ name) = words before ++ [name] := by
    rw [words_append (.inl fun c hc => continuesWord_eq_false_iff.mpr (hbefore c hc)), halone]
  rw [words_append (.inr fun c hc => continuesWord_eq_false_iff.mpr (hafter c hc)), hfront,
    List.append_assoc]
  rfl

/-! ## §4. The words of a sentence. -/

section Sentences

variable {v : Vocabulary}

/-- **The words that a vocabulary gives a meaning**: those of the language, and its names, of
variables and of terms. -/
def Vocabulary.Knows (v : Vocabulary) (w : String) : Prop :=
  w ∈ grammarWords ∨ ∃ entry ∈ v, w = entry.1 ∨ w ∈ entry.2

theorem Names.knows {owner term : String} {place : Nat × Nat} (h : Names v owner term place) :
    v.Knows owner ∧ v.Knows term := by
  obtain ⟨terms, howner, _, hterm, _⟩ := (names_iff v owner term place.1 place.2).mp h
  have hentry := List.mem_of_getElem? howner
  exact ⟨Or.inr ⟨_, hentry, Or.inl rfl⟩, Or.inr ⟨_, hentry, Or.inr (List.mem_of_getElem? hterm)⟩⟩

theorem knows_of_mem {w : String} (h : w ∈ grammarWords) : v.Knows w := Or.inl h

-- By recursion on the derivation: every production adds words of the language only.
mutual

theorem IsDisjunction.knows :
    ∀ {ws : List String} {c : Condition}, IsDisjunction v ws c → ∀ w ∈ ws, v.Knows w
  | _, _, .single h => h.knows
  | _, _, .join left right => List.forall_mem_append.mpr
      ⟨left.knows, List.forall_mem_cons.mpr ⟨knows_of_mem (by decide), right.knows⟩⟩

theorem IsConjunction.knows :
    ∀ {ws : List String} {c : Condition}, IsConjunction v ws c → ∀ w ∈ ws, v.Knows w
  | _, _, .single h => h.knows
  | _, _, .join left right => List.forall_mem_append.mpr
      ⟨left.knows, List.forall_mem_cons.mpr ⟨knows_of_mem (by decide), right.knows⟩⟩

theorem IsAtom.knows :
    ∀ {ws : List String} {c : Condition}, IsAtom v ws c → ∀ w ∈ ws, v.Knows w
  | _, _, .group h => by
    simp only [List.cons_append, List.forall_mem_cons, List.forall_mem_append]
    exact ⟨knows_of_mem (by decide), h.knows, knows_of_mem (by decide), nofun⟩
  | _, _, .affirmed h => by
    simp only [List.forall_mem_cons]
    exact ⟨h.knows.1, knows_of_mem (by decide), h.knows.2, nofun⟩
  | _, _, .negated h => by
    simp only [List.forall_mem_cons]
    exact ⟨h.knows.1, knows_of_mem (by decide), knows_of_mem (by decide), h.knows.2, nofun⟩

end

theorem AreConsequents.knows {ws : List String} {ps : List Proposition}
    (h : AreConsequents v ws ps) : ∀ w ∈ ws, v.Knows w := by
  induction h with
  | last h =>
    simp only [List.forall_mem_cons]
    exact ⟨h.knows.1, knows_of_mem (by decide), h.knows.2, nofun⟩
  | more h _ ih =>
    simp only [List.cons_append, List.nil_append, List.forall_mem_cons]
    exact ⟨h.knows.1, knows_of_mem (by decide), h.knows.2, knows_of_mem (by decide), ih⟩

/-- **Every word of a sentence** is one of the language, a name, or the numeral of its weight. -/
theorem IsSentence.knows {α : Type} [Scalar α] {inputs outputs : Vocabulary} {ws : List String}
    {c : Condition} {ps : List Proposition} {weight : α}
    (h : IsSentence inputs outputs ws c ps weight) :
    ∀ w ∈ ws, inputs.Knows w ∨ outputs.Knows w ∨ (Literal.read? w).isSome = true := by
  obtain @⟨_, _, es, _, _, _, condition, consequents, ending⟩ := h
  have hending : ∀ w ∈ es, w ∈ grammarWords ∨ (Literal.read? w).isSome = true := by
    cases ending with
    | unweighted => exact fun _ hw => absurd hw List.not_mem_nil
    | weighted read _ =>
      simp only [List.forall_mem_cons]
      exact ⟨Or.inl (by decide), Or.inr (read ▸ rfl), nofun⟩
  simp only [List.cons_append, List.append_assoc, List.forall_mem_cons, List.forall_mem_append]
  refine ⟨Or.inl (knows_of_mem (by decide)), fun w hw => Or.inl (condition.knows w hw),
    Or.inl (knows_of_mem (by decide)), fun w hw => Or.inr (Or.inl (consequents.knows w hw)),
    fun w hw => (hending w hw).imp knows_of_mem Or.inr⟩

end Sentences

end RuleText

end Fuzzy

end CapacityControl
