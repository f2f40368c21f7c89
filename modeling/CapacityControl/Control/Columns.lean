/-
  CapacityControl.Control.Columns
  ───────────────────────────────
  COLUMNS OF THE DATA LOG.  Each function that names columns stands beside the one that
  fills them.  A policy puts them together in its own order.
-/
import CapacityControl.Control.Core
import CapacityControl.Control.Counters

namespace CapacityControl.Control

open Log

variable {α : Type} [Scalar α]

/-! ## §1. Names. -/

/-- A name with what it is about. -/
def columnName (name about : String) : String := name ++ "_\x7b" ++ about ++ "\x7d"

/-- The column of the time. -/
def stampColumn : String := "ts"

/-! ## §2. Machines and counters. -/

/-- The columns of a machine: its capacity and its share of the processor. -/
def machineColumns (id : String) : List String := [columnName "Cap" id, columnName "Share" id]

/-- What stands in the columns of a machine. -/
def machineCells (m : Machine α) : List (Cell α) := [.real m.capacity, .real (m.share .cpu)]

/-- The columns of the counters. -/
def counterColumns : List String := ["# Controls", "# Skip Controls", "# Fail Controls"]

/-- What stands in the columns of the counters. -/
def counterCells (c : Counters) : List (Cell α) :=
  [.count c.controls.toNat, .count c.skips.toNat, .count c.failures.toNat]

/-! ## §3. Writing. -/

/-- The result of writing a row. -/
structure Logged (α : Type) where
  log : Option DataLog
  storage : Storage
  warnings : List (Warning α)

/-- Writes a row, if there is a log; a row that is refused is lost with a warning. -/
def writeRow (log : Option DataLog) (storage : Storage) (row : List (Cell α)) : Logged α :=
  match log with
  | none => ⟨none, storage, []⟩
  | some log =>
    match log.writeRow storage (row.map Cell.text) with
    | (log, storage, none) => ⟨some log, storage, []⟩
    | (log, storage, some fault) =>
      ⟨some log, storage, [.rowLost (.dataLog log.path (.width fault))]⟩

/-- What reopening a log leaves behind. -/
structure Reopened (α : Type) where
  log : Option DataLog
  storage : Storage
  result : Except (Error α) Unit

/-- Closes a log and creates the next one, if there is to be one. -/
def reopen (log : Option DataLog) (storage : Storage) (path : Option String)
    (columns : List String) : Reopened α :=
  let storage := match log with
    | some log => log.close storage
    | none => storage
  match path with
  | none => ⟨none, storage, .ok ()⟩
  | some path =>
    match DataLog.create storage path columns with
    | .ok (storage, log) => ⟨some log, storage, .ok ()⟩
    | .error fault => ⟨none, storage, .error (.dataLog path (.file fault))⟩

end CapacityControl.Control
