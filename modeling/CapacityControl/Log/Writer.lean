/-
  CapacityControl.Log.Writer
  ──────────────────────────
  WRITING ROWS.  The first row fixes the number of fields of every row.  A row that
  brings its line to another number is refused, but its fields stay where they are: at
  the beginning of the line, which the next row goes on with.  Text that is held back
  reaches the file when a line is complete, when more than a block of it has gathered,
  or when the log is closed.
-/
import CapacityControl.Log.Record

namespace CapacityControl.Log

/-! ## §1. Held text. -/

/-- How much text is held back at most. -/
def blockSize : Nat := 8192

/-- Splits text that has gathered into whole blocks, which are let go, and the rest, which is
held: at most one block, and never nothing. -/
def release (text : List Char) : List Char × List Char :=
  text.splitAt ((text.length - 1) / blockSize * blockSize)

/-! ## §2. The writer. -/

/-- A line has another number of fields than the lines before it. -/
structure WidthFault where
  found : Nat
  first : Nat
  deriving DecidableEq, Repr

/-- What has been written of the rows of one log. -/
structure Writer where
  /-- The number of fields of a row, once there is one. -/
  width : Option Nat
  /-- The number of fields on the line that is being written. -/
  fields : Nat
  held : List Char

/-- What writing a row does: text for the file, the writer after it, and a fault if the line
is not complete. -/
structure Written where
  released : List Char
  writer : Writer
  fault : Option WidthFault

namespace Writer

/-- A writer at the beginning of the first row. -/
def start : Writer := ⟨none, 0, []⟩

/-- The text that a row adds to the line. -/
def rowText (w : Writer) (row : List String) : List Char :=
  (if 0 < w.fields && !row.isEmpty then [','] else []) ++ (",".intercalate row).toList

/-- **Writes a row.** -/
def write (w : Writer) (row : List String) : Written :=
  let text := w.held ++ w.rowText row
  let fields := w.fields + row.length
  let first := w.width.getD fields
  if fields = first then ⟨text ++ ['\n'], ⟨some first, 0, []⟩, none⟩
  else
    let (released, held) := release text
    ⟨released, ⟨some first, fields, held⟩, some ⟨fields, first⟩⟩

end Writer

end CapacityControl.Log
