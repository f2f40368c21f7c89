/-
  CapacityControl.Proofs.Document.Settled
  ───────────────────────────────────────
  QUOTES THAT DO NOT MATTER.  A string that would not be taken for anything else is
  written without quotes, and then reads back as a plain scalar.  Settling a tree turns
  such scalars into strings again.  It changes nothing in what the tree says: the readers
  of records and tagged values commute with it (`record?_settled`, `tagged?_settled`), and
  a configuration that the settled tree holds is the one the tree itself holds
  (`config?_of_settled`).
-/
import CapacityControl.Document.Config
import CapacityControl.Document.Yaml.Dialect

namespace CapacityControl.Document

/-! ## §1. Settled trees. -/

namespace Yaml

section Settled

variable (α : Type) [Scalar α]

/-- Whether a plain scalar is taken for a text. -/
def isText (text : String) : Bool :=
  match (resolve text : Resolved α) with
  | .text => true
  | _ => false

mutual

/-- A tree in which the plain scalars that are taken for texts have become strings. -/
def settled : Node → Node
  | .scalar quoted text => .scalar (quoted || isText α text) text
  | .garbled => .garbled
  | .list items => .list (settledItems items)
  | .map entries => .map (settledEntries entries)

/-- The items of a list, settled. -/
def settledItems : List Node → List Node
  | [] => []
  | n :: ns => settled n :: settledItems ns

/-- The entries of a mapping, settled. -/
def settledEntries : List (Node × Node) → List (Node × Node)
  | [] => []
  | (k, v) :: es => (settled k, settled v) :: settledEntries es

end

end Settled

variable {α : Type} [Scalar α]

theorem isText_iff (text : String) :
    isText α text = true ↔ (resolve text : Resolved α) = .text := by
  unfold isText
  split
  · simp_all
  · simp_all

theorem settledItems_eq_map (ns : List Node) : settledItems α ns = ns.map (settled α) := by
  induction ns with
  | nil => rfl
  | cons n ns ih => exact congrArg (settled α n :: ·) ih

theorem settledEntries_eq_map (es : List (Node × Node)) :
    settledEntries α es = es.map fun e => (settled α e.1, settled α e.2) := by
  induction es with
  | nil => rfl
  | cons e es ih => exact congrArg ((settled α e.1, settled α e.2) :: ·) ih

@[simp] theorem text?_settled (n : Node) : (settled α n).text? = n.text? := by
  cases n <;> rfl

/-! ## §2. Scalars. -/

/-- **A plain scalar that is taken for a text** is neither the nothing nor a flag. -/
theorem resolve_text {text : String} (h : (resolve text : Resolved α) = .text) :
    isAbsent (.scalar false text) = false ∧ flagText? text = none := by
  unfold resolve at h
  split at h
  · cases h
  · next habsent =>
    refine ⟨by simpa [isAbsent] using habsent, ?_⟩
    split at h
    · cases h
    · assumption

/-- A reader of scalars that takes a string and a plain text for the same. -/
theorem scalar_settled {β : Type} {read : Node → β}
    (h : ∀ text, (resolve text : Resolved α) = .text →
      read (.scalar true text) = read (.scalar false text))
    (hlist : ∀ ns ms, read (.list ns) = read (.list ms))
    (hmap : ∀ es fs, read (.map es) = read (.map fs)) (n : Node) :
    read (settled α n) = read n := by
  cases n with
  | scalar quoted text =>
    cases quoted with
    | true => rfl
    | false =>
      cases htext : isText α text with
      | false => simp [settled, htext]
      | true => simpa [settled, htext] using h text ((isText_iff text).mp htext)
  | garbled => rfl
  | list items => exact hlist _ _
  | map entries => exact hmap _ _

theorem isAbsent_settled (n : Node) : isAbsent (settled α n) = isAbsent n :=
  scalar_settled (fun _ h => (resolve_text h).1.symm) (fun _ _ => rfl) (fun _ _ => rfl) n

theorem flag?_settled (n : Node) : flag? (settled α n) = flag? n :=
  scalar_settled (fun _ h => (resolve_text h).2.symm) (fun _ _ => rfl) (fun _ _ => rfl) n

theorem taggedReal?_settled (n : Node) :
    taggedReal? (α := α) (settled α n) = taggedReal? n :=
  scalar_settled (fun _ h => by simp [taggedReal?, h]) (fun _ _ => rfl) (fun _ _ => rfl) n

theorem admits_settled (n : Node) : admits (α := α) (settled α n) = admits (α := α) n :=
  scalar_settled (fun _ h => by simp [admits, h]) (fun _ _ => rfl) (fun _ _ => rfl) n

theorem taggedKey?_settled (fields : List String) (n : Node) :
    taggedKey? (α := α) fields (settled α n) = taggedKey? (α := α) fields n :=
  scalar_settled (fun _ h => by simp [taggedKey?, h]) (fun _ _ => rfl) (fun _ _ => rfl) n

/-- A real is read off a plain scalar only.  The converse fails for padded digits, which are
taken for a text and yet read as a real where one is wanted. -/
theorem real?_of_settled {n : Node} {x : α} (h : real? (settled α n) = some x) :
    real? n = some x := by
  cases n with
  | scalar quoted text =>
    cases hquoted : quoted || isText α text with
    | true => simp [settled, hquoted, real?] at h
    | false =>
      obtain ⟨rfl, _⟩ := Bool.or_eq_false_iff.mp hquoted
      simpa [settled, hquoted] using h
  | garbled => cases h
  | list items => cases h
  | map entries => cases h

/-! ## §3. Trees. -/

mutual

theorem all_admits_settled (depth : Nat) (n : Node) :
    (settled α n).all (admits (α := α)) depth = n.all (admits (α := α)) depth := by
  cases n with
  | scalar quoted text =>
    simpa [settled, Node.all] using admits_settled (α := α) (.scalar quoted text)
  | garbled => rfl
  | list items =>
    cases depth with
    | zero => rfl
    | succ depth => exact allItems_admits_settled depth items
  | map entries =>
    cases depth with
    | zero => rfl
    | succ depth => exact allEntries_admits_settled depth entries

theorem allItems_admits_settled (depth : Nat) (ns : List Node) :
    Node.allItems (admits (α := α)) depth (settledItems α ns)
      = Node.allItems (admits (α := α)) depth ns := by
  cases ns with
  | nil => rfl
  | cons n ns =>
    simp only [settledItems, Node.allItems, all_admits_settled depth n,
      allItems_admits_settled depth ns]

theorem allEntries_admits_settled (depth : Nat) (es : List (Node × Node)) :
    Node.allEntries (admits (α := α)) depth (settledEntries α es)
      = Node.allEntries (admits (α := α)) depth es := by
  cases es with
  | nil => rfl
  | cons e es =>
    obtain ⟨k, v⟩ := e
    simp only [settledEntries, Node.allEntries, all_admits_settled depth k,
      all_admits_settled depth v, allEntries_admits_settled depth es]

end

end Yaml

open Yaml Dialect Stats Control

variable {α : Type} [Scalar α]

/-! ## §4. Records and tagged values. -/

/-- Slots with settled values. -/
def settledSlots (α : Type) [Scalar α] (slots : Slots) : Slots :=
  slots.map (Option.map (settled α))

theorem fill?_settled (slots : Slots) (i : Nat) (v : Node) :
    fill? (settledSlots α slots) i (settled α v) = (fill? slots i v).map (settledSlots α) := by
  unfold fill? settledSlots
  rw [List.getElem?_map]
  match slots[i]? with
  | none => rfl
  | some none => simp [List.map_set]
  | some (some _) => rfl

theorem fillAll?_settled {index? : Node → Option (Option Nat)}
    (hindex : ∀ k, index? (settled α k) = index? k) (es : List (Node × Node)) :
    ∀ slots : Slots, fillAll? index? (settledEntries α es) (settledSlots α slots)
      = (fillAll? index? es slots).map (settledSlots α) := by
  induction es with
  | nil => exact fun _ => rfl
  | cons e es ih =>
    obtain ⟨k, v⟩ := e
    intro slots
    simp only [settledEntries, fillAll?, hindex, Option.bind_eq_bind]
    match index? k with
    | none => rfl
    | some none => exact ih slots
    | some (some i) =>
      simp only [Option.bind_some, fill?_settled]
      cases fill? slots i v with
      | none => rfl
      | some slots => exact ih slots

theorem settledSlots_empty (fields : List String) :
    settledSlots α (fields.map fun _ => none) = fields.map fun _ => none := by
  simp [settledSlots]

theorem listed?_settled (count : Nat) (ns : List Node) :
    listed? count (settledItems α ns) = (listed? count ns).map (settledSlots α) := by
  rw [settledItems_eq_map]
  unfold listed? settledSlots
  by_cases h : ns.length ≤ count
  · simp [h, List.map_replicate]
  · simp [h]

/-- **A record** of a settled tree has the settled values of the record. -/
theorem record?_settled (fields : List String) (n : Node) :
    (dialect (α := α)).record? fields (settled α n)
      = ((dialect (α := α)).record? fields n).map (settledSlots α) := by
  cases n with
  | scalar quoted text => rfl
  | garbled => rfl
  | list items => exact listed?_settled fields.length items
  | map entries =>
    have hindex (k : Node) : (dialect (α := α)).index? fields (settled α k)
        = (dialect (α := α)).index? fields k := by
      simp [Dialect.index?, dialect]
    have hfill := fillAll?_settled hindex entries (fields.map fun _ => none)
    rw [settledSlots_empty] at hfill
    exact hfill

theorem filter_settled (p : Node → Bool) (hp : ∀ k, p (settled α k) = p k)
    (es : List (Node × Node)) :
    (settledEntries α es).filter (p ·.1) = settledEntries α (es.filter (p ·.1)) := by
  simp [settledEntries_eq_map, List.filter_map, Function.comp_def, hp]

/-- **A tagged value** of a settled tree has the same kind, and the rest of it is settled. -/
theorem tagged?_settled (enclosing : Nat) (n : Node) :
    (dialect (α := α)).tagged? enclosing (settled α n)
      = ((dialect (α := α)).tagged? enclosing n).map fun t => ⟨t.kind, settled α t.body⟩ := by
  have hall : (settled α n).all (dialect (α := α)).admits ((dialect (α := α)).depth - enclosing)
      = n.all (dialect (α := α)).admits ((dialect (α := α)).depth - enclosing) :=
    all_admits_settled _ n
  have htag (k : Node) : isTag (settled α k) = isTag k := by simp [isTag]
  unfold tagged?
  rw [hall]
  split
  · rfl
  · cases n with
    | scalar quoted text => rfl
    | garbled => rfl
    | list items =>
      cases items with
      | nil => rfl
      | cons n ns =>
        show (((settled α n).text?).map fun k => (⟨k, .list (settledItems α ns)⟩ : Tagged)) = _
        simp [Yaml.dialect, Function.comp_def, settled]
    | map entries =>
      simp only [settled]
      rw [filter_settled isTag htag, filter_settled (! isTag ·) (by simp [htag])]
      generalize entries.filter (isTag ·.1) = kinds
      match kinds with
      | [] => rfl
      | [(k, v)] => simp [settledEntries, Yaml.dialect, Function.comp_def, settled]
      | _ :: _ :: _ => rfl

theorem mapM_settledSlots (slots : Slots) :
    (settledSlots α slots).mapM (fun slot => slot.bind (taggedReal? (α := α)))
      = slots.mapM fun slot => slot.bind taggedReal? := by
  induction slots with
  | nil => rfl
  | cons slot slots ih =>
    have hslot : (slot.map (settled α)).bind (taggedReal? (α := α)) = slot.bind taggedReal? := by
      cases slot with
      | none => rfl
      | some n => exact taggedReal?_settled n
    simp only [settledSlots, List.map_cons, List.mapM_cons, hslot] at ih ⊢
    rw [ih]

theorem taggedReals?_settled (fields : List String) (body : Node) :
    (dialect (α := α)).taggedReals? fields (settled α body)
      = (dialect (α := α)).taggedReals? fields body := by
  have hslots (slots : Option Slots) :
      ((slots.map (settledSlots α)).bind fun slots =>
        slots.mapM fun slot => slot.bind (taggedReal? (α := α)))
      = slots.bind fun slots => slots.mapM fun slot => slot.bind taggedReal? := by
    cases slots with
    | none => rfl
    | some slots => exact mapM_settledSlots slots
  unfold taggedReals?
  cases body with
  | scalar quoted text => rfl
  | garbled => rfl
  | list items =>
    simp only [settled, listed?_settled]
    exact hslots _
  | map entries =>
    have hfill := fillAll?_settled (taggedKey?_settled (α := α) fields) entries
      (fields.map fun _ => none)
    rw [settledSlots_empty] at hfill
    simp only [settled, Yaml.dialect, hfill]
    exact hslots _

theorem isBare_settled (n : Node) : isBare (settled α n) = isBare n := by
  cases n with
  | list items => simp [settled, isBare, settledItems_eq_map]
  | _ => rfl

/-! ## §5. Configurations. -/

theorem estimator?_settled (enclosing : Nat) (n : Node) :
    estimator? (dialect (α := α)) enclosing (settled α n)
      = estimator? (dialect (α := α)) enclosing n := by
  unfold estimator?
  rw [tagged?_settled]
  cases (dialect (α := α)).tagged? enclosing n with
  | none => rfl
  | some t => simp only [Option.map_some, Option.bind_eq_bind, Option.bind_some, isBare_settled,
      taggedReals?_settled]

theorem target?_of_settled {n : Node} {t : Target α}
    (h : target? dialect (settled α n) = some t) : target? dialect n = some t := by
  unfold target? at h ⊢
  rw [record?_settled] at h
  obtain ⟨slots, hslots, h⟩ := Option.bind_eq_some_iff.mp h
  obtain ⟨own, hown, rfl⟩ := Option.map_eq_some_iff.mp hslots
  refine Option.bind_eq_some_iff.mpr ⟨own, hown, ?_⟩
  match own, h with
  | [some value, none], h =>
    obtain ⟨kind, hkind, h⟩ := Option.bind_eq_some_iff.mp h
    obtain ⟨x, hx, h⟩ := Option.bind_eq_some_iff.mp h
    exact Option.bind_eq_some_iff.mpr ⟨kind, hkind,
      Option.bind_eq_some_iff.mpr ⟨x, real?_of_settled hx, h⟩⟩
  | [some value, some estimator], h =>
    obtain ⟨kind, hkind, h⟩ := Option.bind_eq_some_iff.mp h
    obtain ⟨x, hx, h⟩ := Option.bind_eq_some_iff.mp h
    rw [estimator?_settled] at hkind
    exact Option.bind_eq_some_iff.mpr ⟨kind, hkind,
      Option.bind_eq_some_iff.mpr ⟨x, real?_of_settled hx, h⟩⟩

theorem targetEntries?_of_settled (es : List (Node × Node)) :
    ∀ {ts us : PerMetric (Option (Target α))},
      targetEntries? dialect (settledEntries α es) ts = some us →
        targetEntries? dialect es ts = some us := by
  induction es with
  | nil => exact id
  | cons e es ih =>
    obtain ⟨k, v⟩ := e
    intro ts us h
    obtain ⟨m, hm, h⟩ := Option.bind_eq_some_iff.mp h
    obtain ⟨t, ht, h⟩ := Option.bind_eq_some_iff.mp h
    have hname : named? (dialect (α := α)) Metric.ofName? k = some m := by
      simpa [named?, Yaml.dialect] using hm
    exact Option.bind_eq_some_iff.mpr ⟨m, hname,
      Option.bind_eq_some_iff.mpr ⟨t, target?_of_settled ht, ih h⟩⟩

theorem targets?_of_settled {n : Node} {ts : PerMetric (Option (Target α))}
    (h : targets? dialect (settled α n) = some ts) : targets? dialect n = some ts := by
  cases n with
  | map entries => exact targetEntries?_of_settled entries h
  | scalar quoted text =>
    cases quoted with
    | true => exact h
    | false =>
      cases htext : isText α text with
      | false => simpa [settled, htext] using h
      | true => simp [settled, htext, targets?, Yaml.dialect] at h
  | garbled => exact h
  | list items => cases h

theorem optionalText?_settled (n : Node) :
    optionalText? (dialect (α := α)) (settled α n) = optionalText? (dialect (α := α)) n := by
  have habsent : (dialect (α := α)).isAbsent (settled α n) = (dialect (α := α)).isAbsent n :=
    isAbsent_settled n
  have htext : (dialect (α := α)).text? (settled α n) = (dialect (α := α)).text? n :=
    text?_settled n
  simp only [optionalText?, habsent, htext]

theorem orElse_of_settled {β : Type} {read : Node → Option β} {standard x : β}
    {slot : Option Node} (h : orElse read standard (slot.map (settled α)) = some x)
    (hread : ∀ {n x}, read (settled α n) = some x → read n = some x) :
    orElse read standard slot = some x := by
  cases slot with
  | none => exact h
  | some n => exact hread h

/-- **Settling keeps a configuration**: what the settled tree says the tree itself says. -/
theorem config?_of_settled {n : Node} {c : Config α}
    (h : config? dialect (settled α n) = some c) : config? dialect n = some c := by
  unfold config? at h ⊢
  rw [record?_settled] at h
  obtain ⟨slots, hslots, h⟩ := Option.bind_eq_some_iff.mp h
  obtain ⟨own, hown, rfl⟩ := Option.map_eq_some_iff.mp hslots
  refine Option.bind_eq_some_iff.mpr ⟨own, hown, ?_⟩
  match own, h with
  | [some sampling, some control, factor, dataLog, some targets, resets], h =>
    simp only [settledSlots, List.map_cons, List.map_nil, Option.map_some, Option.bind_eq_bind,
      Option.bind_eq_some_iff, Option.some.injEq] at h ⊢
    obtain ⟨s, hs, k, hk, f, hf, d, hd, t, ht, r, hr, rfl⟩ := h
    exact ⟨s, real?_of_settled hs, k, real?_of_settled hk,
      f, orElse_of_settled hf real?_of_settled,
      d, orElse_of_settled hd fun h => (optionalText?_settled _).symm.trans h,
      t, targets?_of_settled ht,
      r, orElse_of_settled hr fun h => (flag?_settled _).symm.trans h, rfl⟩

end CapacityControl.Document
