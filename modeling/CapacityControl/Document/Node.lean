/-
  CapacityControl.Document.Node
  ─────────────────────────────
  DOCUMENTS.  Whatever its format, a document is a tree of scalars, lists and mappings.
  A scalar keeps its text and whether it was quoted; what it is worth is decided where
  a value of some kind is wanted (`Document.Dialect`).
-/

namespace CapacityControl.Document

/-- A document or a part of one. -/
inductive Node where
  /-- A scalar: its text, and whether quotes or a block say that it is a string. -/
  | scalar (quoted : Bool) (text : String)
  /-- A string that holds half of a surrogate pair, and so has no text. -/
  | garbled
  | list (items : List Node)
  /-- A mapping, in the order in which it is written; keys may repeat. -/
  | map (entries : List (Node × Node))
  deriving Inhabited

namespace Node

/-- An unquoted scalar. -/
def plain (text : String) : Node := scalar false text

/-- A string. -/
def string (text : String) : Node := scalar true text

/-- The text of a scalar. -/
def text? : Node → Option String
  | scalar _ text => some text
  | _ => none

/-! ## §1. Conditions on the scalars of a tree. -/

mutual

/-- Whether every scalar satisfies a condition and lists and mappings are nested at most
`depth` deep. -/
def all (ok : Node → Bool) : Nat → Node → Bool
  | _, scalar quoted text => ok (scalar quoted text)
  | _, garbled => ok garbled
  | 0, list _ => false
  | 0, map _ => false
  | depth + 1, list items => allItems ok depth items
  | depth + 1, map entries => allEntries ok depth entries

/-- The condition for every item. -/
def allItems (ok : Node → Bool) : Nat → List Node → Bool
  | _, [] => true
  | depth, n :: ns => all ok depth n && allItems ok depth ns

/-- The condition for every key and value. -/
def allEntries (ok : Node → Bool) : Nat → List (Node × Node) → Bool
  | _, [] => true
  | depth, (k, v) :: es => all ok depth k && all ok depth v && allEntries ok depth es

end

/-! ## §2. Equality of trees. -/

mutual

/-- Whether two trees are the same. -/
def isSame : Node → Node → Bool
  | scalar p s, scalar q t => p == q && s == t
  | garbled, garbled => true
  | list ns, list ms => sameItems ns ms
  | map es, map fs => sameEntries es fs
  | _, _ => false

/-- Whether two lists have the same items. -/
def sameItems : List Node → List Node → Bool
  | [], [] => true
  | n :: ns, m :: ms => isSame n m && sameItems ns ms
  | _, _ => false

/-- Whether two mappings have the same entries in the same order. -/
def sameEntries : List (Node × Node) → List (Node × Node) → Bool
  | [], [] => true
  | (k, v) :: es, (l, w) :: fs => isSame k l && isSame v w && sameEntries es fs
  | _, _ => false

end

mutual

theorem isSame_iff (n m : Node) : isSame n m = true ↔ n = m := by
  cases n <;> cases m
  case list.list ns ms => simpa [isSame] using sameItems_iff ns ms
  case map.map es fs => simpa [isSame] using sameEntries_iff es fs
  all_goals simp [isSame]

theorem sameItems_iff (ns ms : List Node) : sameItems ns ms = true ↔ ns = ms := by
  cases ns <;> cases ms
  case cons.cons n ns m ms => simp [sameItems, isSame_iff n m, sameItems_iff ns ms]
  all_goals simp [sameItems]

theorem sameEntries_iff (es fs : List (Node × Node)) : sameEntries es fs = true ↔ es = fs := by
  cases es <;> cases fs
  case cons.cons e es f fs =>
    obtain ⟨k, v⟩ := e
    obtain ⟨l, w⟩ := f
    simp [sameEntries, isSame_iff k l, isSame_iff v w, sameEntries_iff es fs]
  all_goals simp [sameEntries]

end

instance : DecidableEq Node := fun n m => decidable_of_iff _ (isSame_iff n m)

end Node

end CapacityControl.Document
