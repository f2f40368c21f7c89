/-
  CapacityControl.Log.DataLog
  ───────────────────────────
  DATA LOGS: a file with a header and one row for each control.  Rows are in the file
  as soon as they are complete, so a run that is cut short keeps its past.
-/
import CapacityControl.Log.Writer
import CapacityControl.Storage

namespace CapacityControl.Log

/-- Why a log cannot be opened or written. -/
inductive Fault where
  | file (fault : FileFault)
  | width (fault : WidthFault)
  deriving DecidableEq, Repr

/-- The wording of a fault. -/
def Fault.text : Fault → String
  | file fault => fault.text
  | width fault =>
    "CSV error: found record with " ++ countText fault.found ++
      " fields, but the previous record has " ++ countText fault.first ++ " fields"

/-- An open log: the path it was opened by, the place of its file, and its writer. -/
structure DataLog where
  path : String
  place : Place
  writer : Writer

namespace DataLog

/-- Creates the file, in the place of any other, with a header. -/
def create (storage : Storage) (path : String) (columns : List String) :
    Except FileFault (Storage × DataLog) := do
  let place ← storage.locate path
  pure (storage.put place (headerLine columns), ⟨path, place, .start⟩)

/-- Writes a row. -/
def writeRow (log : DataLog) (storage : Storage) (row : List String) :
    DataLog × Storage × Option WidthFault :=
  let written := log.writer.write row
  ({ log with writer := written.writer },
    storage.append log.place (String.ofList written.released), written.fault)

/-- Ends the log; what is still held reaches the file. -/
def close (log : DataLog) (storage : Storage) : Storage :=
  storage.append log.place (String.ofList log.writer.held)

end DataLog

end CapacityControl.Log
