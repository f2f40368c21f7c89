/-
  CapacityControl.Document.Dialect
  ────────────────────────────────
  WHAT A DOCUMENT SAYS.  A dialect tells which nodes of a format stand for a real, a
  flag, a text, a choice.  On top of it this module reads the compound values, which
  follow the same rules in every format:

  * a record is a mapping, in which unknown fields are ignored and no known one may be
    repeated, or the list of its fields in order, where the last ones may be missing;
  * a tagged value is a mapping with a field `kind`, or a list that begins with the kind.
-/
import CapacityControl.Document.Node
import CapacityControl.Scalar

namespace CapacityControl.Document

/-! ## §1. Dialects. -/

/-- The meaning of the nodes of one format. -/
structure Dialect (α : Type) where
  /-- A real where one is wanted. -/
  real? : Node → Option α
  /-- A real in a tagged value. -/
  taggedReal? : Node → Option α
  flag? : Node → Option Bool
  text? : Node → Option String
  /-- One of the words of a choice. -/
  word? : Node → Option String
  /-- A node that stands for no value where there may be none. -/
  isAbsent : Node → Bool
  /-- A scalar that stands for a mapping without entries. -/
  isEmptyMap : Node → Bool
  /-- The name of a field of a record. -/
  key? : Node → Option String
  /-- What a key of a tagged value says, of fields with these names: a name, or a place. -/
  taggedKey? : List String → Node → Option (Option Nat)
  /-- A scalar that may stand in a tagged value. -/
  admits : Node → Bool
  /-- How deep lists and mappings may be nested in all. -/
  depth : Nat

namespace Dialect

variable {α : Type} (d : Dialect α)

/-! ## §2. Records. -/

/-- What a record gives for each of its fields. -/
abbrev Slots := List (Option Node)

/-- Puts a value into the slot at an index, which has to be empty. -/
def fill? (slots : Slots) (i : Nat) (v : Node) : Option Slots :=
  match slots[i]? with
  | some none => some (slots.set i (some v))
  | _ => none

/-- Fills the slots from the entries of a mapping; `index?` finds the slot of a key, and
fails if the node is no key at all. -/
def fillAll? (index? : Node → Option (Option Nat)) : List (Node × Node) → Slots → Option Slots
  | [], slots => some slots
  | (k, v) :: es, slots => do
    match ← index? k with
    | some i => fillAll? index? es (← fill? slots i v)
    | none => fillAll? index? es slots

/-- The slots of a list of values in order. -/
def listed? (count : Nat) (items : List Node) : Option Slots :=
  if items.length ≤ count then some (items.map some ++ List.replicate (count - items.length) none)
  else none

/-- The slot of a field name, if it is one of them. -/
def index? (fields : List String) (n : Node) : Option (Option Nat) :=
  (d.key? n).map fun k => fields.idxOf? k

/-- **Reads a record.** -/
def record? (fields : List String) : Node → Option Slots
  | .map entries => fillAll? (d.index? fields) entries (fields.map fun _ => none)
  | .list items => listed? fields.length items
  | _ => none

/-! ## §3. Tagged values. -/

/-- The field that tells the kind of a tagged value. -/
def tagName : String := "kind"

/-- A tagged value: its kind, and its fields as a mapping or a list. -/
structure Tagged where
  kind : String
  body : Node

/-- Whether the node is the name of the tag. -/
def isTag (n : Node) : Bool := n.text? == some tagName

/-- **Splits a tagged value** into its kind and the rest.  `enclosing` says how many lists
and mappings it stands in. -/
def tagged? (enclosing : Nat) (n : Node) : Option Tagged :=
  if !n.all d.admits (d.depth - enclosing) then none
  else match n with
    | .map entries =>
      match entries.filter (isTag ·.1) with
      | [(_, kind)] => (d.text? kind).map fun k => ⟨k, .map (entries.filter (!isTag ·.1))⟩
      | _ => none
    | .list (kind :: items) => (d.text? kind).map fun k => ⟨k, .list items⟩
    | _ => none

/-- The reals of a tagged value with these fields, all of which it has to have. -/
def taggedReals? (fields : List String) (body : Node) : Option (List α) := do
  let slots ← match body with
    | .map entries => fillAll? (d.taggedKey? fields) entries (fields.map fun _ => none)
    | .list items => listed? fields.length items
    | _ => none
  slots.mapM fun slot => slot.bind d.taggedReal?

/-- Whether a tagged value is one without fields.  In a mapping, others are ignored. -/
def isBare : Node → Bool
  | .list items => items.isEmpty
  | _ => true

end Dialect

end CapacityControl.Document
