/-
  CapacityControl.Proofs.Fuzzy.Condition
  ──────────────────────────────────────
  READING ACCEPTS EXACTLY THE DISJUNCTIONS.  What the reader has read of a condition,
  before each open parenthesis and since, is a beginning that the grammar allows
  (`Enclosed`, `Pending.Reads`), so what it makes of the whole is what the grammar
  assigns (`isDisjunction_of_operand`).  Conversely it gets through everything that the
  grammar derives, with that meaning (`operand_disjunction`).
-/
import CapacityControl.Fuzzy.RuleText.Grammar
import CapacityControl.Proofs.Result

namespace CapacityControl.Fuzzy.RuleText

variable {α : Type}

/-! ## §1. Names. -/

/-- A text that is accepted as a name. -/
def IsName (s : String) : Prop := checkName s = .ok s

theorem isName_iff (s : String) : IsName s ↔ spellsName s.toList = true ∧ s ∉ reservedWords := by
  unfold IsName checkName
  by_cases hspells : spellsName s.toList = true
  · by_cases hreserved : s ∈ reservedWords
    · simp [hspells, hreserved]
    · simp [hspells, hreserved]
  · simp [hspells]

instance : DecidablePred IsName := fun s => decidable_of_iff _ (isName_iff s).symm

theorem IsName.ne_parenthesis {s : String} (h : IsName s) : s ≠ "(" := by
  rintro rfl
  have hspells : spellsName "(".toList = false := by decide +kernel
  exact Bool.false_ne_true (hspells.symm.trans ((isName_iff _).mp h).1)

theorem IsName.ne_not {s : String} (h : IsName s) : s ≠ "not" := by
  rintro rfl
  exact ((isName_iff _).mp h).2 (by simp [reservedWords])

/-- Every name in the vocabulary is accepted as one. -/
def Vocabulary.Proper (v : Vocabulary) : Prop :=
  ∀ entry ∈ v, IsName entry.1 ∧ ∀ term ∈ entry.2, IsName term

/-- The first place at which a list satisfies a test. -/
theorem findIdx?_eq_some_iff_take {β : Type} {p : β → Bool} {l : List β} {i : Nat} :
    l.findIdx? p = some i ↔ (∃ b, l[i]? = some b ∧ p b = true) ∧ ∀ b ∈ l.take i, p b = false := by
  rw [List.findIdx?_eq_some_iff_getElem]
  constructor
  · rintro ⟨hi, hp, hbefore⟩
    refine ⟨⟨l[i], List.getElem?_eq_getElem hi, hp⟩, fun b hb => ?_⟩
    obtain ⟨j, hj, rfl⟩ := List.mem_take_iff_getElem.mp hb
    exact Bool.not_eq_true _ ▸ hbefore j (Nat.lt_of_lt_of_le hj (Nat.min_le_left _ _))
  · rintro ⟨⟨b, hb, hp⟩, hbefore⟩
    obtain ⟨hi, rfl⟩ := List.getElem?_eq_some_iff.mp hb
    refine ⟨hi, hp, fun j hj => ?_⟩
    rw [hbefore _ (List.mem_take_iff_getElem.mpr ⟨j, Nat.lt_min.mpr ⟨hj, Nat.lt_trans hj hi⟩, rfl⟩)]
    exact Bool.false_ne_true

/-- **Which variable is found**: the first of the name. -/
theorem Vocabulary.variable?_eq_some_iff {v : Vocabulary} {name : String} {i : Nat}
    {terms : List String} : v.variable? name = some (i, terms)
      ↔ v[i]? = some (name, terms) ∧ ∀ entry ∈ v.take i, entry.1 ≠ name := by
  unfold Vocabulary.variable?
  rw [Option.bind_eq_some_iff]
  simp only [findIdx?_eq_some_iff_take, Option.map_eq_some_iff, Prod.mk.injEq, beq_iff_eq,
    beq_eq_false_iff_ne, ne_eq]
  constructor
  · rintro ⟨_, ⟨⟨_, hfound, rfl⟩, hbefore⟩, entry, hentry, rfl, rfl⟩
    cases hfound.symm.trans hentry
    exact ⟨hfound, hbefore⟩
  · rintro ⟨hentry, hbefore⟩
    exact ⟨i, ⟨⟨_, hentry, rfl⟩, hbefore⟩, _, hentry, rfl, rfl⟩

/-- **Which term is found**: the first of the name. -/
theorem termIndex?_eq_some_iff {terms : List String} {name : String} {j : Nat} :
    termIndex? terms name = some j
      ↔ terms[j]? = some name ∧ ∀ other ∈ terms.take j, other ≠ name := by
  unfold termIndex?
  simp only [findIdx?_eq_some_iff_take, beq_iff_eq, beq_eq_false_iff_ne, ne_eq]
  exact and_congr_left fun _ => ⟨fun ⟨_, hterm, heq⟩ => heq ▸ hterm, fun hterm => ⟨name, hterm, rfl⟩⟩

/-- **Which term is named**: that of the first variable of the one name, and of its terms the
first of the other name. -/
theorem names_iff (v : Vocabulary) (owner term : String) (i j : Nat) :
    Names v owner term (i, j)
      ↔ ∃ terms, v[i]? = some (owner, terms) ∧ (∀ entry ∈ v.take i, entry.1 ≠ owner)
        ∧ terms[j]? = some term ∧ ∀ other ∈ terms.take j, other ≠ term := by
  unfold Names
  simp only [Vocabulary.variable?_eq_some_iff, termIndex?_eq_some_iff, and_assoc]

/-- In a proper vocabulary only names are looked up successfully. -/
theorem Names.isName {v : Vocabulary} (hv : v.Proper) {owner term : String} {place : Nat × Nat}
    (h : Names v owner term place) : IsName owner ∧ IsName term := by
  obtain ⟨terms, howner, _, hterm, _⟩ := (names_iff v owner term place.1 place.2).mp h
  obtain ⟨hname, hterms⟩ := hv _ (List.mem_of_getElem? howner)
  exact ⟨hname, hterms term (List.mem_of_getElem? hterm)⟩

theorem resolveTerm_ok {owner term : String} {terms : List String} {i : Nat} :
    (resolveTerm owner terms term : Except (Fault α) Nat) = .ok i ↔ termIndex? terms term = some i := by
  unfold resolveTerm
  cases termIndex? terms term with
  | none => simp
  | some j => simp

/-! ## §2. One step of reading a condition. -/

section Steps

variable {v : Vocabulary} {outer : List Pending} {ws : List String}
  {r : Condition × List String}

/-- **An operand that is read** begins with a parenthesis, or is an atom without one. -/
theorem operand_ok {here : Pending}
    (h : (operand v outer here ws : Except (Fault α) _) = .ok r) :
    (∃ rest, ws = "(" :: rest ∧ (operand v (here :: outer) .none rest : Except (Fault α) _) = .ok r)
      ∨ ∃ us rest c, ws = us ++ rest ∧ us ≠ [] ∧ IsAtom v us c
        ∧ (operator v outer (here.settle c) rest : Except (Fault α) _) = .ok r := by
  cases ws with
  | nil => cases h
  | cons owner ws =>
    unfold operand at h
    by_cases hopen : owner = "("
    · rw [if_pos hopen] at h
      exact Or.inl ⟨ws, by rw [hopen], h⟩
    · rw [if_neg hopen] at h
      cases hvar : v.variable? owner with
      | none =>
        rw [hvar] at h
        cases h
      | some found =>
        obtain ⟨var, terms⟩ := found
        rw [hvar] at h
        -- A variable is followed by `is`, perhaps `not`, and one of its terms.
        match ws, h with
        | [], h => cases h
        | [word], h =>
          dsimp only at h
          split at h
          · cases h
          · cases h
        | word :: first :: rest, h =>
          dsimp only at h
          by_cases his : word = "is"
          · rw [if_neg (not_not_intro his)] at h
            by_cases hnot : first = "not"
            · rw [if_pos hnot] at h
              match rest, h with
              | [], h => cases h
              | term :: rest, h =>
                dsimp only at h
                cases hterm : (resolveTerm owner terms term : Except (Fault α) Nat) with
                | error e =>
                  rw [hterm] at h
                  cases h
                | ok j =>
                  rw [hterm] at h
                  have hnames : Names v owner term (var, j) :=
                    ⟨terms, hvar, resolveTerm_ok.mp hterm⟩
                  refine Or.inr ⟨[owner, "is", "not", term], rest, _, ?_, nofun,
                    .negated hnames, h⟩
                  rw [his, hnot]
                  rfl
            · rw [if_neg hnot] at h
              cases hterm : (resolveTerm owner terms first : Except (Fault α) Nat) with
              | error e =>
                rw [hterm] at h
                cases h
              | ok j =>
                rw [hterm] at h
                have hnames : Names v owner first (var, j) :=
                  ⟨terms, hvar, resolveTerm_ok.mp hterm⟩
                refine Or.inr ⟨[owner, "is", first], rest, _, ?_, nofun, .affirmed hnames, h⟩
                rw [his]
                rfl
          · rw [if_pos his] at h
            cases h

/-- **After an operand** the conjunction goes on, a new one begins, a parenthesis is closed, or
the condition ends. -/
theorem operator_ok {here : Settled}
    (h : (operator v outer here ws : Except (Fault α) _) = .ok r) :
    (∃ rest, ws = "and" :: rest ∧ (operand v outer here.further rest : Except (Fault α) _) = .ok r)
      ∨ (∃ rest, ws = "or" :: rest
          ∧ (operand v outer here.another rest : Except (Fault α) _) = .ok r)
      ∨ (∃ above outer' rest, outer = above :: outer' ∧ ws = ")" :: rest
          ∧ (operator v outer' (above.settle here.whole) rest : Except (Fault α) _) = .ok r)
      ∨ (outer = [] ∧ r = (here.whole, ws)) := by
  cases ws with
  | nil =>
    cases outer with
    | nil =>
      cases h
      exact Or.inr (Or.inr (Or.inr ⟨rfl, rfl⟩))
    | cons above outer => cases h
  | cons word rest =>
    unfold operator at h
    by_cases hand : word = "and"
    · rw [if_pos hand] at h
      exact Or.inl ⟨rest, by rw [hand], h⟩
    · rw [if_neg hand] at h
      by_cases hor : word = "or"
      · rw [if_pos hor] at h
        exact Or.inr (Or.inl ⟨rest, by rw [hor], h⟩)
      · rw [if_neg hor] at h
        cases outer with
        | nil =>
          cases h
          exact Or.inr (Or.inr (Or.inr ⟨rfl, rfl⟩))
        | cons above outer =>
          dsimp only at h
          by_cases hclose : word = ")"
          · rw [if_pos hclose] at h
            exact Or.inr (Or.inr (Or.inl ⟨above, outer, rest, rfl, by rw [hclose], h⟩))
          · rw [if_neg hclose] at h
            cases h

end Steps

/-! ## §3. What has been read is a beginning. -/

/-- **The words since the last open parenthesis**, when the next operand is missing. -/
inductive Pending.Reads (v : Vocabulary) : List String → Pending → Prop
  | nothing : Reads v [] .none
  | disjuncts {ws : List String} {c : Condition} (h : IsDisjunction v ws c) :
      Reads v (ws ++ ["or"]) ⟨some c, Option.none⟩
  | conjuncts {ws : List String} {c : Condition} (h : IsConjunction v ws c) :
      Reads v (ws ++ ["and"]) ⟨Option.none, some c⟩
  | both {ws us : List String} {c d : Condition} (left : IsDisjunction v ws c)
      (right : IsConjunction v us d) : Reads v (ws ++ "or" :: us ++ ["and"]) ⟨some c, some d⟩

/-- **The words since the last open parenthesis**, after an operand. -/
inductive Settled.Reads (v : Vocabulary) : List String → Settled → Prop
  | first {ws : List String} {c : Condition} (h : IsConjunction v ws c) : Reads v ws ⟨none, c⟩
  | later {ws us : List String} {c d : Condition} (left : IsDisjunction v ws c)
      (right : IsConjunction v us d) : Reads v (ws ++ "or" :: us) ⟨some c, d⟩

/-- **The words up to the last open parenthesis**: before each one the operand it begins is
missing. -/
inductive Enclosed (v : Vocabulary) : List String → List Pending → Prop
  | outermost : Enclosed v [] []
  | inside {ws us : List String} {outer : List Pending} {above : Pending}
      (enclosed : Enclosed v ws outer) (reads : above.Reads v us) :
      Enclosed v (ws ++ us ++ ["("]) (above :: outer)

section Beginnings

variable {v : Vocabulary} {us ws : List String} {c : Condition}

/-- An atom settles the conjunction that is being read. -/
theorem Pending.Reads.settle {p : Pending} (h : p.Reads v us) (hc : IsAtom v ws c) :
    (p.settle c).Reads v (us ++ ws) := by
  cases h with
  | nothing => exact .first (.single hc)
  | disjuncts h =>
    rw [List.append_assoc]
    exact .later h (.single hc)
  | conjuncts h =>
    rw [List.append_assoc]
    exact .first (.join h hc)
  | both left right =>
    rw [List.append_assoc, List.append_assoc]
    exact .later left (.join right hc)

theorem Settled.Reads.whole {s : Settled} (h : s.Reads v us) : IsDisjunction v us s.whole := by
  cases h with
  | first h => exact .single h
  | later left right => exact .join left right

theorem Settled.Reads.further {s : Settled} (h : s.Reads v us) :
    s.further.Reads v (us ++ ["and"]) := by
  cases h with
  | first h => exact .conjuncts h
  | later left right => exact .both left right

theorem Settled.Reads.another {s : Settled} (h : s.Reads v us) :
    s.another.Reads v (us ++ ["or"]) :=
  .disjuncts h.whole

/-- **What is read completes a disjunction**, from any beginning.  The words that are left get
fewer with every step. -/
theorem isDisjunction_of_reads (size : Nat) {front rest : List String} {outer : List Pending}
    (hfront : Enclosed v front outer) (hsize : ws.length < size) :
    (∀ here : Pending, here.Reads v us →
        (operand v outer here ws : Except (Fault α) _) = .ok (c, rest) →
        ∃ read, ws = read ++ rest ∧ IsDisjunction v (front ++ us ++ read) c)
      ∧ ∀ here : Settled, here.Reads v us →
        (operator v outer here ws : Except (Fault α) _) = .ok (c, rest) →
        ∃ read, ws = read ++ rest ∧ IsDisjunction v (front ++ us ++ read) c := by
  induction size generalizing front outer us ws with
  | zero => exact absurd hsize (Nat.not_lt_zero _)
  | succ size ih =>
    refine ⟨fun here hhere h => ?_, fun here hhere h => ?_⟩
    · rcases operand_ok h with ⟨rest', rfl, h⟩ | ⟨as, rest', d, rfl, hne, hatom, h⟩
      · -- The parenthesis encloses what comes next.
        have hless : rest'.length < size := Nat.lt_of_succ_lt_succ hsize
        obtain ⟨read, rfl, hread⟩ :=
          (ih (hfront.inside hhere) hless).1 _ Pending.Reads.nothing h
        refine ⟨"(" :: read, rfl, ?_⟩
        simpa using hread
      · have hless : rest'.length < size := by
          have hpos := List.length_pos_iff.mpr hne
          rw [List.length_append] at hsize
          omega
        obtain ⟨read, rfl, hread⟩ := (ih hfront hless).2 _ (hhere.settle hatom) h
        refine ⟨as ++ read, (List.append_assoc _ _ _).symm, ?_⟩
        simpa using hread
    · rcases operator_ok h with ⟨rest', rfl, h⟩ | ⟨rest', rfl, h⟩ |
        ⟨above, outer', rest', rfl, rfl, h⟩ | ⟨rfl, hend⟩
      · have hless : rest'.length < size := Nat.lt_of_succ_lt_succ hsize
        obtain ⟨read, rfl, hread⟩ := (ih hfront hless).1 _ hhere.further h
        refine ⟨"and" :: read, rfl, ?_⟩
        simpa using hread
      · have hless : rest'.length < size := Nat.lt_of_succ_lt_succ hsize
        obtain ⟨read, rfl, hread⟩ := (ih hfront hless).1 _ hhere.another h
        refine ⟨"or" :: read, rfl, ?_⟩
        simpa using hread
      · -- What the parenthesis encloses is an atom of what was being read before it.
        have hless : rest'.length < size := Nat.lt_of_succ_lt_succ hsize
        cases hfront with
        | inside hfront habove =>
          obtain ⟨read, rfl, hread⟩ :=
            (ih hfront hless).2 _ (habove.settle (.group hhere.whole)) h
          refine ⟨")" :: read, rfl, ?_⟩
          simpa using hread
      · cases hfront
        cases hend
        refine ⟨[], rfl, ?_⟩
        simpa using hhere.whole

end Beginnings

/-- **A condition that is read** is a disjunction, and means what the grammar says. -/
theorem isDisjunction_of_operand {v : Vocabulary} {ws rest : List String} {c : Condition}
    (h : (operand v [] .none ws : Except (Fault α) _) = .ok (c, rest)) :
    ∃ read, ws = read ++ rest ∧ IsDisjunction v read c :=
  (isDisjunction_of_reads (ws.length + 1) .outermost (Nat.lt_succ_self _)).1 .none .nothing h

/-! ## §4. What the grammar derives is read. -/

section Words

variable (v : Vocabulary) (outer : List Pending) (ws : List String)

theorem operand_parenthesis (here : Pending) :
    (operand v outer here ("(" :: ws) : Except (Fault α) _)
      = operand v (here :: outer) .none ws := by
  rw [operand, if_pos rfl]

theorem operator_and (here : Settled) :
    (operator v outer here ("and" :: ws) : Except (Fault α) _)
      = operand v outer here.further ws := by
  rw [operator.eq_def]
  exact if_pos rfl

theorem operator_or (here : Settled) :
    (operator v outer here ("or" :: ws) : Except (Fault α) _)
      = operand v outer here.another ws := by
  rw [operator.eq_def]
  dsimp only
  rw [if_neg (by decide), if_pos rfl]

theorem operator_parenthesis (above : Pending) (here : Settled) :
    (operator v (above :: outer) here (")" :: ws) : Except (Fault α) _)
      = operator v outer (above.settle here.whole) ws := by
  rw [operator.eq_def]
  dsimp only
  rw [if_neg (by decide), if_neg (by decide), if_pos rfl]

theorem operator_then (here : Settled) :
    (operator v [] here ("then" :: ws) : Except (Fault α) _) = .ok (here.whole, "then" :: ws) := by
  rw [operator.eq_def]
  dsimp only
  rw [if_neg (by decide), if_neg (by decide)]

end Words

/-- Words that are read to their end as a disjunction, whatever stands behind them. -/
def DisjunctionRead (α : Type) (v : Vocabulary) (ws : List String) (c : Condition) : Prop :=
  ∀ (outer : List Pending) (rest : List String), ∃ s : Settled, s.whole = c
    ∧ (operand v outer .none (ws ++ rest) : Except (Fault α) _) = operator v outer s rest

/-- Words that are read to their end as one operand of a disjunction. -/
def ConjunctionRead (α : Type) (v : Vocabulary) (ws : List String) (c : Condition) : Prop :=
  ∀ (outer : List Pending) (before : Option Condition) (rest : List String),
    (operand v outer ⟨before, none⟩ (ws ++ rest) : Except (Fault α) _)
      = operator v outer ⟨before, c⟩ rest

/-- Words that are read to their end as one operand. -/
def AtomRead (α : Type) (v : Vocabulary) (ws : List String) (c : Condition) : Prop :=
  ∀ (outer : List Pending) (here : Pending) (rest : List String),
    (operand v outer here (ws ++ rest) : Except (Fault α) _)
      = operator v outer (here.settle c) rest

section Derived

variable {v : Vocabulary} {ws us : List String} {c d : Condition}

theorem ConjunctionRead.disjunction (h : ConjunctionRead α v ws c) : DisjunctionRead α v ws c :=
  fun outer rest => ⟨⟨none, c⟩, rfl, h outer none rest⟩

theorem DisjunctionRead.or (h : DisjunctionRead α v ws c) (h' : ConjunctionRead α v us d) :
    DisjunctionRead α v (ws ++ "or" :: us) (.or c d) := by
  intro outer rest
  obtain ⟨s, rfl, hread⟩ := h outer ("or" :: us ++ rest)
  refine ⟨⟨some s.whole, d⟩, rfl, ?_⟩
  rw [List.append_assoc, hread, List.cons_append, operator_or]
  exact h' outer (some s.whole) rest

theorem AtomRead.conjunction (h : AtomRead α v ws c) : ConjunctionRead α v ws c :=
  fun outer before rest => h outer ⟨before, none⟩ rest

theorem ConjunctionRead.and (h : ConjunctionRead α v ws c) (h' : AtomRead α v us d) :
    ConjunctionRead α v (ws ++ "and" :: us) (.and c d) := by
  intro outer before rest
  rw [List.append_assoc, h, List.cons_append, operator_and]
  exact h' outer ⟨before, some c⟩ rest

theorem DisjunctionRead.group (h : DisjunctionRead α v ws c) :
    AtomRead α v ("(" :: ws ++ [")"]) c := by
  intro outer here rest
  obtain ⟨s, rfl, hread⟩ := h (here :: outer) (")" :: rest)
  rw [List.append_assoc, List.cons_append, operand_parenthesis]
  exact hread.trans (operator_parenthesis v outer rest here s)

variable {owner term : String} {place : Nat × Nat}

theorem atomRead_affirmed (hv : v.Proper) (h : Names v owner term place) :
    AtomRead α v [owner, "is", term] (.prop ⟨place.1, place.2, false⟩) := by
  intro outer here rest
  obtain ⟨howner, hterm⟩ := h.isName hv
  obtain ⟨terms, hvar, hindex⟩ := h
  show operand v outer here (owner :: "is" :: term :: rest) = _
  rw [operand, if_neg howner.ne_parenthesis, hvar]
  dsimp only
  rw [if_neg (not_not_intro rfl), if_neg hterm.ne_not, resolveTerm_ok.mpr hindex]

theorem atomRead_negated (hv : v.Proper) (h : Names v owner term place) :
    AtomRead α v [owner, "is", "not", term] (.prop ⟨place.1, place.2, true⟩) := by
  intro outer here rest
  obtain ⟨howner, _⟩ := h.isName hv
  obtain ⟨terms, hvar, hindex⟩ := h
  show operand v outer here (owner :: "is" :: "not" :: term :: rest) = _
  rw [operand, if_neg howner.ne_parenthesis, hvar]
  dsimp only
  rw [if_neg (not_not_intro rfl), if_pos rfl, resolveTerm_ok.mpr hindex]

/-- **Every disjunction of the grammar is read**, and with its meaning: by recursion on the
derivation, one case for each production. -/
theorem disjunctionRead (hv : v.Proper) (h : IsDisjunction v ws c) : DisjunctionRead α v ws c :=
  @IsDisjunction.rec v (fun ws c _ => DisjunctionRead α v ws c)
    (fun ws c _ => ConjunctionRead α v ws c) (fun ws c _ => AtomRead α v ws c)
    (fun _ h => h.disjunction) (fun _ _ left right => left.or right)
    (fun _ h => h.conjunction) (fun _ _ left right => left.and right)
    (fun _ h => h.group) (fun h => atomRead_affirmed hv h) (fun h => atomRead_negated hv h)
    _ _ h

/-- A disjunction before `then` is the condition that is read. -/
theorem operand_disjunction (hv : v.Proper) (h : IsDisjunction v ws c) (rest : List String) :
    (operand v [] .none (ws ++ "then" :: rest) : Except (Fault α) _)
      = .ok (c, "then" :: rest) := by
  obtain ⟨s, hs, hread⟩ := disjunctionRead (α := α) hv h [] ("then" :: rest)
  rw [hread, operator_then, hs]

end Derived

end CapacityControl.Fuzzy.RuleText
