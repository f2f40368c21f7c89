/-
  CapacityControl.Document.Fuzzy
  ──────────────────────────────
  FUZZY SETS IN DOCUMENTS.  A shape is a tagged value of kind `ramp` or `triangle`, a
  term a record of a name and a shape.  Nothing but the types is checked here: names and
  shapes are as the document gives them.
-/
import CapacityControl.Document.Json.Dialect
import CapacityControl.Fuzzy.Term
import CapacityControl.Fuzzy.Centroid
import CapacityControl.Fuzzy.Norm
import CapacityControl.Metric

namespace CapacityControl.Document

open Fuzzy

variable {α : Type} [Scalar α]

/-! ## §1. Names. -/

/-- Reads a member of a closed set by its name. -/
def named? {β : Type} (d : Dialect α) (find : String → Option β) (n : Node) : Option β :=
  (d.word? n).bind find

/-! ## §2. Shapes and terms. -/

/-- Reads a shape that stands in `enclosing` lists and mappings. -/
def shape? (d : Dialect α) (enclosing : Nat) (n : Node) : Option (Shape α) := do
  let t ← d.tagged? enclosing n
  match t.kind with
  | "ramp" =>
    match ← d.taggedReals? ["start", "end"] t.body with
    | [start, stop] => some (.ramp start stop)
    | _ => none
  | "triangle" =>
    match ← d.taggedReals? ["a", "b", "c"] t.body with
    | [left, apex, right] => some (.triangle left apex right)
    | _ => none
  | _ => none

/-- Reads a term. -/
def term? (d : Dialect α) (n : Node) : Option (Term α) := do
  match ← d.record? ["name", "shape"] n with
  | [some name, some shape] => some ⟨← d.text? name, ← shape? d 1 shape⟩
  | _ => none

/-! ## §3. Centroids. -/

/-- Reads a centroid: a record with a count. -/
def centroid? (n : Node) : Option Centroid := do
  match ← (Json.dialect : Dialect α).record? ["resolution"] n with
  | [some resolution] => some ⟨← Json.count? resolution⟩
  | _ => none

end CapacityControl.Document
