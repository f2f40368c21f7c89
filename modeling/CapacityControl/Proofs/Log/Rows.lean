/-
  CapacityControl.Proofs.Log.Rows
  ───────────────────────────────
  ROWS OF ONE WIDTH.  As long as every row has the same number of fields, a log holds its
  header and one line for each row, and nothing is held back (`DataLog.Holds`): so it is
  when the log is created (`DataLog.holds_create`), and so it is after one more row
  (`DataLog.Holds.writeRow`).
-/
import CapacityControl.Log.DataLog
import CapacityControl.Proofs.Result

namespace CapacityControl

/-! ## §1. Files. -/

namespace Storage

variable {s : Storage} {place : Place}

theorem textAt?_put (s : Storage) (place : Place) (text : String) :
    (s.put place text).textAt? place = some text := by
  simp [put, textAt?]

theorem textAt?_append {before : String} (h : s.textAt? place = some before) (text : String) :
    (s.append place text).textAt? place = some (before ++ text) := by
  unfold append
  rw [textAt?_put, h]
  rfl

/-- Where a directory leads does not depend on the files. -/
theorem enter_put {here : Place} {name : String} (h : s.enter here name = .ok place)
    (other : Place) (text : String) : (s.put other text).enter here name = .ok place := by
  unfold enter at h ⊢
  by_cases hname : (name = "" || name = ".") = true
  · rw [if_pos hname] at h ⊢
    exact h
  · rw [if_neg hname] at h ⊢
    by_cases hup : name = ".."
    · rw [if_pos hup] at h ⊢
      exact h
    · rw [if_neg hup] at h ⊢
      by_cases hlong : nameLimit < name.utf8ByteSize
      · rw [if_pos hlong] at h
        cases h
      · rw [if_neg hlong] at h ⊢
        by_cases hdir : here ++ [name] ∈ s.directories
        · rw [if_pos hdir] at h
          exact (if_pos hdir).trans h
        · -- What stands there instead decides between two errors only.
          rw [if_neg hdir] at h
          split at h
          · cases h
          · cases h

theorem follow_put {here : Place} {names : List String} (h : s.follow here names = .ok place)
    (other : Place) (text : String) : (s.put other text).follow here names = .ok place := by
  fun_induction follow s here names with
  | case1 here => cases h
  | case2 here name p hdir => cases h
  | case3 here name p hdir hlong => cases h
  | case4 here name p hdir hlong =>
    unfold follow
    exact (if_neg hdir).trans ((if_neg hlong).trans h)
  | case5 here name next names ih =>
    obtain ⟨inner, hinner, h⟩ := bind_eq_ok_iff.mp h
    exact bind_eq_ok_iff.mpr ⟨inner, enter_put hinner other text, ih inner h⟩

/-- **A path that leads somewhere** goes on leading there, whatever is written. -/
theorem locate_put {path : String} (h : s.locate path = .ok place) (other : Place)
    (text : String) : (s.put other text).locate path = .ok place := by
  unfold locate at h ⊢
  by_cases hnul : path.toList.contains '\x00' = true
  · rw [if_pos hnul] at h
    cases h
  · rw [if_neg hnul] at h ⊢
    by_cases hempty : path = ""
    · rw [if_pos hempty] at h
      cases h
    · rw [if_neg hempty] at h ⊢
      by_cases hlong : pathLimit < path.utf8ByteSize
      · rw [if_pos hlong] at h
        cases h
      · rw [if_neg hlong] at h ⊢
        obtain ⟨found, hfound, h⟩ := bind_eq_ok_iff.mp h
        exact bind_eq_ok_iff.mpr ⟨found, follow_put hfound other text, h⟩
end Storage

namespace Log

/-! ## §2. Lines. -/

/-- The line of a row. -/
def rowLine (row : List String) : String := ",".intercalate row ++ "\n"

/-- The writer is at the beginning of a line, and its rows have a width, if there were any. -/
structure Writer.Level (w : Writer) (width : Nat) : Prop where
  fields : w.fields = 0
  held : w.held = []
  width : w.width = none ∨ w.width = some width

theorem Writer.level_start (width : Nat) : start.Level width := ⟨rfl, rfl, Or.inl rfl⟩

/-- **A row of the right width** is written as a line. -/
theorem Writer.Level.write {w : Writer} {row : List String} (h : w.Level row.length) :
    w.write row = ⟨(rowLine row).toList, ⟨some row.length, 0, []⟩, none⟩ := by
  have hfirst : w.width.getD row.length = row.length := by
    rcases h.width with hw | hw
    · rw [hw]
      rfl
    · rw [hw]
      rfl
  simp [Writer.write, Writer.rowText, h.fields, h.held, hfirst, rowLine]

/-! ## §3. Logs. -/

/-- **What a log has written**: the text is in the file, and nothing is held back. -/
structure DataLog.Holds (log : DataLog) (storage : Storage) (width : Nat) (text : String) :
    Prop where
  located : storage.locate log.path = .ok log.place
  text : storage.textAt? log.place = some text
  level : log.writer.Level width

namespace DataLog

variable {log : DataLog} {storage : Storage} {text : String}

theorem Holds.read {width : Nat} (h : log.Holds storage width text) :
    storage.read? log.path = some text := by
  unfold Storage.read?
  rw [h.located]
  exact h.text

/-- A new log holds its header. -/
theorem holds_create {storage' : Storage} {path : String} {columns : List String}
    (h : create storage path columns = .ok (storage', log)) (width : Nat) :
    log.path = path ∧ log.Holds storage' width (headerLine columns) := by
  obtain ⟨place, hplace, h⟩ := bind_eq_ok_iff.mp h
  cases h
  exact ⟨rfl, storage.locate_put hplace place _, storage.textAt?_put place _,
    Writer.level_start width⟩

/-- **One more row** is one more line. -/
theorem Holds.writeRow {row : List String} (h : log.Holds storage row.length text) :
    ∃ log' storage', log.writeRow storage row = (log', storage', none) ∧ log'.path = log.path
      ∧ log'.Holds storage' row.length (text ++ rowLine row) := by
  unfold DataLog.writeRow
  rw [h.level.write]
  refine ⟨_, _, rfl, rfl, storage.locate_put h.located _ _, ?_, ⟨rfl, rfl, Or.inr rfl⟩⟩
  show (storage.append log.place (String.ofList (rowLine row).toList)).textAt? log.place = _
  rw [String.ofList_toList, Storage.textAt?_append h.text]

end DataLog

end Log

end CapacityControl
