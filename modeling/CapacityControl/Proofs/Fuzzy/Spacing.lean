/-
  CapacityControl.Proofs.Fuzzy.Spacing
  ────────────────────────────────────
  THE TEXTS OF GIVEN WORDS.  A text shows words if it is made of them with blanks in
  between, as many as one likes, and none where a parenthesis ends a word already
  (`Spaced`).  Splitting finds the words that a text shows, so two texts have the same
  words if they show the same (`words_eq_iff`).  Two texts show together what each of them
  shows, unless a word goes on over the seam (`Spaced.append`), so a text keeps its words
  without the blanks at its ends (`words_trimmed`).  A rule depends on the words alone but
  for its text, so that the text it keeps is read as the rule itself
  (`Engine.readRule_reproduced`).
-/
import CapacityControl.Proofs.Fuzzy.Sentence
import Mathlib.Data.List.DropRight

namespace CapacityControl.Fuzzy

namespace RuleText

open Text

/-! ## §1. Texts that show words. -/

/-- Characters that make up a word. -/
def IsWord (w : List Char) : Prop := w ≠ [] ∧ ∀ c ∈ w, continuesWord c = true

instance (w : List Char) : Decidable (IsWord w) :=
  decidable_of_iff (w.isEmpty = false ∧ w.all continuesWord = true) (by simp [IsWord])

/-- Characters that stand for themselves between blanks: a word, or a lone parenthesis. -/
def IsPiece (w : List Char) : Prop := IsWord w ∨ ∃ c, isParenthesis c = true ∧ w = [c]

/-- **Characters that show words.**  Blanks may stand anywhere but inside a word, and have to stand
where one word would go on in the next. -/
inductive Spaced : List (List Char) → List Char → Prop
  | nothing : Spaced [] []
  | blank {c : Char} {ws : List (List Char)} {cs : List Char} (hc : isBlank c = true)
      (h : Spaced ws cs) : Spaced ws (c :: cs)
  | parenthesis {c : Char} {ws : List (List Char)} {cs : List Char} (hc : isParenthesis c = true)
      (h : Spaced ws cs) : Spaced ([c] :: ws) (c :: cs)
  | word {w : List Char} {ws : List (List Char)} {cs : List Char} (hw : IsWord w)
      (hends : ∀ c ∈ cs.head?, continuesWord c = false) (h : Spaced ws cs) :
      Spaced (w :: ws) (w ++ cs)

/-- **A text that shows words.** -/
def Shows (ws : List String) (text : String) : Prop := Spaced (ws.map String.toList) text.toList

/-! ## §2. Splitting finds the words that are shown. -/

section Splitting

variable {c : Char} {w word cs gap : List Char} {ws : List (List Char)}

theorem continuesWord_iff : continuesWord c = true ↔ isBlank c = false ∧ isParenthesis c = false := by
  simp [continuesWord]

theorem continuesWord_eq_false_iff :
    continuesWord c = false ↔ isBlank c = true ∨ isParenthesis c = true := by
  cases hblank : isBlank c with
  | true => simp [continuesWord, hblank]
  | false => simp [continuesWord, hblank]

theorem continuesWord_of_blank (hc : isBlank c = true) : continuesWord c = false :=
  continuesWord_eq_false_iff.mpr (Or.inl hc)

theorem continuesWord_of_parenthesis (hc : isParenthesis c = true) : continuesWord c = false :=
  continuesWord_eq_false_iff.mpr (Or.inr hc)

theorem isParenthesis_iff : isParenthesis c = true ↔ c = '(' ∨ c = ')' := by
  simp [isParenthesis]

/-- No parenthesis is a blank. -/
theorem isBlank_of_parenthesis (hc : isParenthesis c = true) : isBlank c = false := by
  rcases isParenthesis_iff.mp hc with rfl | rfl
  · decide
  · decide

theorem splitWords_append (h : ∀ c ∈ w, continuesWord c = true) (word rest : List Char) :
    splitWords word (w ++ rest) = splitWords (w.reverse ++ word) rest := by
  induction w generalizing word with
  | nil => rfl
  | cons c w ih =>
    rw [List.cons_append, splitWords, if_pos (h c List.mem_cons_self),
      ih fun c' hc' => h c' (List.mem_cons_of_mem c hc'), List.reverse_cons, List.append_assoc]
    rfl

/-- The word being read is closed by whatever does not go on in it. -/
theorem splitWords_ends (word : List Char) (hends : ∀ c ∈ cs.head?, continuesWord c = false) :
    splitWords word cs = (if word.isEmpty then [] else [word.reverse]) ++ splitWords [] cs := by
  cases cs with
  | nil => exact (List.append_nil _).symm
  | cons c cs =>
    have hc : ¬ continuesWord c = true := by simp [hends c rfl]
    rw [splitWords, if_neg hc, splitWords, if_neg hc, List.append_assoc]
    rfl

/-- **What is shown is found**, by induction on how it is shown. -/
theorem Spaced.splitWords_eq (h : Spaced ws cs) : splitWords [] cs = ws := by
  induction h with
  | nothing => rfl
  | @blank c ws cs hc _ ih =>
    rw [splitWords, if_neg (by simp [continuesWord_of_blank hc]), if_pos hc]
    exact ih
  | @parenthesis c ws cs hc _ ih =>
    rw [splitWords, if_neg (by simp [continuesWord_of_parenthesis hc]),
      if_neg (by simp [isBlank_of_parenthesis hc]), ih]
    rfl
  | @word w ws cs hw hends _ ih =>
    have hne : ¬ w.reverse.isEmpty = true := by simpa using hw.1
    rw [splitWords_append hw.2, List.append_nil, splitWords_ends _ hends, if_neg hne,
      List.reverse_reverse, ih]
    rfl

/-- Characters that have been read of a word, if any, are shown in front of what follows. -/
theorem Spaced.opened (h : Spaced ws cs) (hword : ∀ c ∈ word, continuesWord c = true)
    (hends : ∀ c ∈ cs.head?, continuesWord c = false) :
    Spaced ((if word.isEmpty then [] else [word.reverse]) ++ ws) (word.reverse ++ cs) := by
  cases word with
  | nil => exact h
  | cons c word =>
    have hreverse : IsWord (c :: word).reverse :=
      ⟨by simp, fun c' hc' => hword c' (List.mem_reverse.mp hc')⟩
    exact .word hreverse hends h

/-- **What is found is shown**, by induction on the characters that are left. -/
theorem spaced_splitWords (cs : List Char) (hword : ∀ c ∈ word, continuesWord c = true) :
    Spaced (splitWords word cs) (word.reverse ++ cs) := by
  induction cs generalizing word with
  | nil =>
    have hopened := Spaced.nothing.opened hword nofun
    rwa [List.append_nil] at hopened
  | cons c cs ih =>
    by_cases hc : continuesWord c = true
    · have hlonger : Spaced (splitWords (c :: word) cs) ((c :: word).reverse ++ cs) :=
        ih (List.forall_mem_cons.mpr ⟨hc, hword⟩)
      rw [List.reverse_cons, List.append_assoc] at hlonger
      rw [splitWords, if_pos hc]
      exact hlonger
    · have hends : ∀ c' ∈ (c :: cs).head?, continuesWord c' = false := by
        rintro _ ⟨⟩
        exact Bool.not_eq_true _ ▸ hc
      have hrest : Spaced (splitWords [] cs) cs := ih nofun
      rw [splitWords, if_neg hc, List.append_assoc]
      refine Spaced.opened ?_ hword hends
      -- What does not go on in a word is a blank or a parenthesis.
      by_cases hblank : isBlank c = true
      · rw [if_pos hblank]
        exact .blank hblank hrest
      · rw [if_neg hblank]
        have hends := continuesWord_eq_false_iff.mp (Bool.not_eq_true _ ▸ hc)
        exact .parenthesis (hends.resolve_left hblank) hrest

theorem splitWords_eq_iff : splitWords [] cs = ws ↔ Spaced ws cs := by
  constructor
  · rintro rfl
    exact spaced_splitWords cs nofun
  · exact Spaced.splitWords_eq

/-- **Splitting a text finds exactly the words that it shows.** -/
theorem words_eq_iff {ws : List String} {text : String} : words text = ws ↔ Shows ws text := by
  unfold words Shows
  rw [← splitWords_eq_iff]
  constructor
  · rintro rfl
    simp [Function.comp_def]
  · intro h
    rw [h, List.map_map]
    simp [Function.comp_def]

theorem shows_words (text : String) : Shows (words text) text := words_eq_iff.mp rfl

/-- A piece is shown in front of whatever does not go on in it. -/
theorem Spaced.piece (hw : IsPiece w) (hends : ∀ c ∈ cs.head?, continuesWord c = false)
    (h : Spaced ws cs) : Spaced (w :: ws) (w ++ cs) := by
  rcases hw with hw | ⟨c, hc, rfl⟩
  · exact .word hw hends h
  · exact .parenthesis hc h

/-- **Pieces with single blanks between them** are shown. -/
theorem words_intercalate {ws : List String} (h : ∀ w ∈ ws, IsPiece w.toList) :
    words (" ".intercalate ws) = ws := by
  have hshown : Spaced (ws.map String.toList) (List.intercalate [' '] (ws.map String.toList)) := by
    induction ws with
    | nil => exact .nothing
    | cons w ws ih =>
      obtain ⟨hw, hrest⟩ := List.forall_mem_cons.mp h
      cases ws with
      | nil =>
        have hlast : Spaced [w.toList] (w.toList ++ []) := .piece hw nofun .nothing
        rw [List.append_nil] at hlast
        rw [List.map_singleton, List.intercalate_singleton]
        exact hlast
      | cons w' ws =>
        have hends : ∀ c ∈ some ' ', continuesWord c = false := by
          rintro _ ⟨⟩
          decide
        rw [List.map_cons, List.map_cons, List.intercalate_cons_cons, List.append_assoc]
        exact .piece hw hends (.blank (by decide) (ih hrest))
  have hblank : " ".toList = [' '] := by decide
  refine words_eq_iff.mpr ?_
  unfold Shows
  rw [String.toList_intercalate, hblank]
  exact hshown

/-! ## §3. Texts one behind the other. -/

/-- **What two texts show**, one behind the other: the words of both, if no word of the first goes
on in the second. -/
theorem Spaced.append {vs : List (List Char)} {ds : List Char} (h : Spaced ws cs) (h' : Spaced vs ds)
    (hseam : (∀ c ∈ cs.getLast?, continuesWord c = false)
      ∨ ∀ c ∈ ds.head?, continuesWord c = false) : Spaced (ws ++ vs) (cs ++ ds) := by
  -- Behind a first part of the first text, the seam is still where it was, or at the very front.
  have hshorter {front cs : List Char} (hseam : (∀ c ∈ (front ++ cs).getLast?, continuesWord c = false)
      ∨ ∀ c ∈ ds.head?, continuesWord c = false) :
      (∀ c ∈ cs.getLast?, continuesWord c = false)
        ∨ ∀ c ∈ ds.head?, continuesWord c = false := by
    refine hseam.imp_left fun hlast c hc => hlast c ?_
    rw [List.getLast?_append, Option.mem_def.mp hc]
    rfl
  induction h with
  | nothing => exact h'
  | @blank c ws cs hc _ ih => exact .blank hc (ih (@hshorter [c] cs hseam))
  | @parenthesis c ws cs hc _ ih => exact .parenthesis hc (ih (@hshorter [c] cs hseam))
  | @word w ws cs hw hends _ ih =>
    rw [List.append_assoc]
    refine .word hw ?_ (ih (hshorter hseam))
    -- The word ends where it did, or at the seam, since it is not the word that ends there.
    cases cs with
    | cons c cs => exact hends
    | nil =>
      refine hseam.resolve_left fun hlast => ?_
      rw [List.append_nil] at hlast
      have hc := hlast _ (List.getLast_mem_getLast? hw.1)
      rw [hw.2 _ (List.getLast_mem hw.1)] at hc
      cases hc

/-- Blanks show nothing. -/
theorem spaced_blanks (hgap : ∀ c ∈ gap, isBlank c = true) : Spaced [] gap := by
  induction gap with
  | nil => exact .nothing
  | cons c gap ih =>
    rw [List.forall_mem_cons] at hgap
    exact .blank hgap.1 (ih hgap.2)

theorem Spaced.blanks_append (h : Spaced ws cs) (hgap : ∀ c ∈ gap, isBlank c = true) :
    Spaced ws (gap ++ cs) :=
  (spaced_blanks hgap).append h <| Or.inl fun c hc =>
    continuesWord_of_blank (hgap c (List.mem_of_getLast? hc))

theorem Spaced.append_blanks (h : Spaced ws cs) (hgap : ∀ c ∈ gap, isBlank c = true) :
    Spaced ws (cs ++ gap) := by
  have hboth := h.append (spaced_blanks hgap) <| Or.inr fun c hc =>
    continuesWord_of_blank (hgap c (List.mem_of_head? hc))
  rwa [List.append_nil] at hboth

/-! ## §4. Blanks at the ends. -/

/-- What is cut off at the ends are blanks. -/
theorem exists_append_trimBlanks (cs : List Char) : ∃ before after,
    (∀ c ∈ before, isBlank c = true) ∧ (∀ c ∈ after, isBlank c = true)
      ∧ cs = before ++ (trimBlanks cs ++ after) := by
  refine ⟨cs.takeWhile isBlank, (cs.dropWhile isBlank).rtakeWhile isBlank,
    fun c hc => List.mem_takeWhile_imp hc, fun c hc => List.mem_rtakeWhile_imp hc, ?_⟩
  have hends : trimBlanks cs ++ (cs.dropWhile isBlank).rtakeWhile isBlank = cs.dropWhile isBlank :=
    List.rdropWhile_append_rtakeWhile
  rw [hends, List.takeWhile_append_dropWhile]

/-- **Blanks at the ends separate nothing.** -/
theorem splitWords_trimBlanks (cs : List Char) :
    splitWords [] (trimBlanks cs) = splitWords [] cs := by
  obtain ⟨before, after, hbefore, hafter, hcs⟩ := exists_append_trimBlanks cs
  have hinner : Spaced (splitWords [] (trimBlanks cs)) (trimBlanks cs) := splitWords_eq_iff.mp rfl
  have hwhole := (hinner.append_blanks hafter).blanks_append hbefore
  rw [← hcs] at hwhole
  exact hwhole.splitWords_eq.symm

/-- What is cut off at the back leaves the first character where it is. -/
theorem dropWhile_rdropWhile {p : Char → Bool} (h : cs.dropWhile p = cs) :
    (cs.rdropWhile p).dropWhile p = cs.rdropWhile p := by
  obtain ⟨after, hafter⟩ := List.rdropWhile_prefix p cs
  generalize cs.rdropWhile p = front at hafter ⊢
  subst hafter
  cases front with
  | nil => rfl
  | cons c front =>
    have hfirst : ¬ p c = true := List.dropWhile_eq_self_iff.mp h (Nat.succ_pos _)
    exact List.dropWhile_eq_self_iff.mpr fun _ => hfirst

/-- Nothing is left to be cut off. -/
theorem trimBlanks_trimBlanks (cs : List Char) : trimBlanks (trimBlanks cs) = trimBlanks cs := by
  have hfront : (trimBlanks cs).dropWhile isBlank = trimBlanks cs :=
    dropWhile_rdropWhile (List.dropWhile_idempotent isBlank cs)
  have hback : (trimBlanks cs).rdropWhile isBlank = trimBlanks cs :=
    List.rdropWhile_idempotent isBlank (cs.dropWhile isBlank)
  show ((trimBlanks cs).dropWhile isBlank).rdropWhile isBlank = trimBlanks cs
  rw [hfront, hback]

theorem words_trimmed (text : String) : words (trimmed text) = words text := by
  unfold words trimmed
  rw [String.toList_ofList, splitWords_trimBlanks]

theorem trimmed_trimmed (text : String) : trimmed (trimmed text) = trimmed text := by
  unfold trimmed
  rw [String.toList_ofList, trimBlanks_trimBlanks]

theorem IsWord.reverse (hw : IsWord w) : IsWord w.reverse :=
  ⟨by simpa using hw.1, fun c hc => hw.2 c (List.mem_reverse.mp hc)⟩

/-- No blank stands before a word. -/
theorem dropWhile_word (hw : IsWord w) (rest : List Char) :
    (w ++ rest).dropWhile isBlank = w ++ rest := by
  obtain ⟨hne, hword⟩ := hw
  cases w with
  | nil => exact absurd rfl hne
  | cons c w =>
    have hblank : isBlank c = false := (continuesWord_iff.mp (hword c List.mem_cons_self)).1
    rw [List.cons_append, List.dropWhile_cons, hblank]
    rfl

/-- A text that begins and ends with a word has no blanks at its ends. -/
theorem trimBlanks_words {v : List Char} (hw : IsWord w) (hv : IsWord v) (middle : List Char) :
    trimBlanks (w ++ middle ++ v) = w ++ middle ++ v := by
  unfold trimBlanks
  rw [List.append_assoc, dropWhile_word hw, ← List.append_assoc, List.reverse_append,
    dropWhile_word hv.reverse, ← List.reverse_append, List.reverse_reverse]

end Splitting

/-! ## §5. Rules. -/

section Rules

variable {α : Type} [Scalar α] {inputs outputs : Vocabulary} {text : String} {ws : List String}

/-- **A rule is made of the words** and keeps the text that it is given. -/
theorem readWords_retold {rule : Rule α} (h : readWords inputs outputs text ws = .ok rule) :
    rule.text = text
      ∧ ∀ other, readWords inputs outputs other ws = .ok { rule with text := other } := by
  obtain ⟨afterIf, hif, h⟩ := bind_eq_ok_iff.mp h
  obtain ⟨beforeThen, hcondition, h⟩ := bind_eq_ok_iff.mp h
  obtain ⟨afterThen, hthen, h⟩ := bind_eq_ok_iff.mp h
  obtain ⟨beforeEnding, hps, h⟩ := bind_eq_ok_iff.mp h
  obtain ⟨w, hw, h⟩ := bind_eq_ok_iff.mp h
  cases h
  refine ⟨rfl, fun other => ?_⟩
  refine bind_eq_ok_iff.mpr ⟨afterIf, hif, bind_eq_ok_iff.mpr ⟨beforeThen, hcondition, ?_⟩⟩
  refine bind_eq_ok_iff.mpr ⟨afterThen, hthen, bind_eq_ok_iff.mpr ⟨beforeEnding, hps, ?_⟩⟩
  exact bind_eq_ok_iff.mpr ⟨w, hw, rfl⟩

end Rules

end RuleText

namespace Engine

open RuleText

variable {α : Type} [Scalar α]

/-- **A rule that is read** keeps the text without the blanks at its ends, and is read from every
text with the same words, only with a text of its own. -/
theorem readRule_retold {e : Engine α} {text : String} {rule : Rule α}
    (h : e.readRule text = .ok rule) :
    rule.text = trimmed text
      ∧ ∀ other, words other = words text →
        e.readRule other = .ok { rule with text := trimmed other } := by
  obtain ⟨htext, hretold⟩ := readWords_retold (mapError_eq_ok_iff.mp h)
  refine ⟨htext, fun other hwords => mapError_eq_ok_iff.mpr ?_⟩
  unfold RuleText.read
  rw [hwords]
  exact hretold (trimmed other)

/-- **The text of a rule reproduces it.**  A rule that an engine has read from a text is read again
from the text that it keeps; and every text with the same words, which is to say every text that
shows them, is read as the same rule, only with a text of its own. -/
theorem readRule_reproduced (e : Engine α) {text : String} {rule : Rule α}
    (h : e.readRule text = .ok rule) :
    e.readRule rule.text = .ok rule
      ∧ ∀ other, (words other = words text ↔ Shows (words text) other)
        ∧ (words other = words text →
          e.readRule other = .ok { rule with text := trimmed other }) := by
  obtain ⟨htext, hretold⟩ := readRule_retold h
  refine ⟨?_, fun other => ⟨words_eq_iff, hretold other⟩⟩
  have hkept := hretold rule.text (by rw [htext, words_trimmed])
  have htrimmed : trimmed rule.text = rule.text := by rw [htext, trimmed_trimmed]
  rw [htrimmed] at hkept
  exact hkept

/-- A text with blanks of several kinds at its ends and none next to its parentheses is kept
without the former, and read as the text is that has single blanks everywhere. -/
theorem readRule_reproduced_trial : ∃ rule,
    trial.readRule "\t\u3000if(A is LOW or B is\nnot HIGH)and B is LOW then Y is UP with 1 \u2003"
        = .ok rule
      ∧ rule.text = "if(A is LOW or B is\nnot HIGH)and B is LOW then Y is UP with 1"
      ∧ trial.readRule rule.text = .ok rule
      ∧ trial.readRule "if ( A is LOW or B is not HIGH ) and B is LOW then Y is UP with 1"
        = .ok { rule with
            text := "if ( A is LOW or B is not HIGH ) and B is LOW then Y is UP with 1" } := by
  obtain ⟨rule, hrule⟩ := exists_ok_of_isOk (r := trial.readRule
    "\t\u3000if(A is LOW or B is\nnot HIGH)and B is LOW then Y is UP with 1 \u2003")
    (by decide +kernel)
  obtain ⟨hagain, hother⟩ := readRule_reproduced trial hrule
  have hsame := (hother "if ( A is LOW or B is not HIGH ) and B is LOW then Y is UP with 1").2
    (by decide +kernel)
  have htrimmed : trimmed "if ( A is LOW or B is not HIGH ) and B is LOW then Y is UP with 1"
      = "if ( A is LOW or B is not HIGH ) and B is LOW then Y is UP with 1" := by
    decide +kernel
  rw [htrimmed] at hsame
  refine ⟨rule, hrule, ?_, hagain, hsame⟩
  rw [(readRule_retold hrule).1]
  decide +kernel

end Engine

end CapacityControl.Fuzzy
