/-
  CapacityControl.Log.Record
  ──────────────────────────
  LINES OF A COMMA-SEPARATED LOG.  The fields of the header are quoted, whatever they
  hold; the fields of a row are numbers, which need no quotes.
-/
import CapacityControl.Scalar
import CapacityControl.Decimal.Layout

namespace CapacityControl.Log

variable {α : Type} [Scalar α]

/-! ## §1. The header. -/

/-- A text in quotes, each quote in it written twice. -/
def quoted (s : String) : String :=
  String.ofList ('"' :: (s.toList.flatMap fun c => if c = '"' then ['"', '"'] else [c]) ++ ['"'])

/-- The header of a log.  Without columns it is one empty field. -/
def headerLine (columns : List String) : String :=
  ",".intercalate (if columns.isEmpty then [quoted ""] else columns.map quoted) ++ "\n"

/-! ## §2. Rows. -/

/-- A cell of a row. -/
inductive Cell (α : Type) where
  /-- Seconds since the epoch. -/
  | stamp (seconds : Int)
  | real (value : α)
  | count (n : Nat)

/-- The text of a count. -/
def countText (n : Nat) : String := String.ofList (Decimal.digitChars n)

/-- The text of a cell. -/
def Cell.text : Cell α → String
  | stamp seconds => Decimal.signText (decide (seconds < 0)) ++ countText seconds.natAbs
  | real value => Scalar.text value
  | count n => countText n

end CapacityControl.Log
