/-
  CapacityControl.Proofs.Log.Layout
  ─────────────────────────────────
  THE SAME FILES WITH OTHER TEXTS.  Where a path leads depends on which directories and files
  there are, not on what the files hold (`Storage.SameLayout.locate`); whether a row is
  refused depends on how many fields there were, not on what stands in them.  So two logs of
  one form in storages of one layout stay so, and go wrong alike, whatever is written to each
  (`DataLog.SameForm.writeRow`, `DataLog.SameForm.create`).
-/
import CapacityControl.Proofs.Log.Rows

namespace CapacityControl

/-! ## §1. Storages. -/

namespace Storage

/-- **The same layout**: the same directories, and files at the same places. -/
structure SameLayout (s s' : Storage) : Prop where
  directories : s'.directories = s.directories
  current : s'.current = s.current
  files : ∀ place, (s'.textAt? place).isSome = (s.textAt? place).isSome

variable {s s' : Storage}

theorem SameLayout.refl (s : Storage) : SameLayout s s := ⟨rfl, rfl, fun _ => rfl⟩

theorem SameLayout.enter (h : SameLayout s s') (here : Place) (name : String) :
    s'.enter here name = s.enter here name := by
  unfold Storage.enter
  rw [h.directories]
  simp only [h.files]

theorem SameLayout.follow (h : SameLayout s s') (here : Place) (names : List String) :
    s'.follow here names = s.follow here names := by
  fun_induction Storage.follow s here names with
  | case1 here => rfl
  | case2 here name place hdir =>
    unfold Storage.follow
    rw [h.directories]
    exact if_pos hdir
  | case3 here name place hdir hlong =>
    unfold Storage.follow
    rw [h.directories]
    exact (if_neg hdir).trans (if_pos hlong)
  | case4 here name place hdir hlong =>
    unfold Storage.follow
    rw [h.directories]
    exact (if_neg hdir).trans (if_neg hlong)
  | case5 here name next names ih =>
    rw [Storage.follow, h.enter]
    cases s.enter here name with
    | error fault => rfl
    | ok inner => exact ih inner

/-- **A path leads** to the same place, or ends at the same obstacle. -/
theorem SameLayout.locate (h : SameLayout s s') (path : String) :
    s'.locate path = s.locate path := by
  unfold Storage.locate
  simp only [h.current, h.follow]

/-- After a text is put at a place there is a file there, and everywhere there was one. -/
theorem isSome_textAt?_put (s : Storage) (place : Place) (text : String) (other : Place) :
    ((s.put place text).textAt? other).isSome
      = (other == place || (s.textAt? other).isSome) := by
  unfold put textAt?
  rw [List.lookup_cons]
  cases hother : other == place with
  | true => rfl
  | false =>
    -- Only files at `place` are left out, and `other` is another place.
    dsimp only
    rw [Bool.false_or]
    induction s.files with
    | nil => rfl
    | cons file files ih =>
      obtain ⟨p, t⟩ := file
      cases hplace : p != place with
      | true =>
        rw [List.filter_cons, if_pos hplace, List.lookup_cons, List.lookup_cons]
        cases other == p with
        | true => rfl
        | false => exact ih
      | false =>
        have hp : p = place := by simpa using hplace
        rw [List.filter_cons, if_neg (by simp [hp]), List.lookup_cons, hp, hother]
        exact ih

/-- **Texts at the same place** keep the layout the same. -/
theorem SameLayout.put (h : SameLayout s s') (place : Place) (text text' : String) :
    SameLayout (s.put place text) (s'.put place text') :=
  ⟨h.directories, h.current, fun other => by
    rw [isSome_textAt?_put, isSome_textAt?_put, h.files]⟩

end Storage

namespace Log

/-! ## §2. Logs. -/

/-- **Logs of one form**: at the same place, in the middle of lines with as many fields. -/
structure DataLog.SameForm (log log' : DataLog) : Prop where
  path : log'.path = log.path
  place : log'.place = log.place
  width : log'.writer.width = log.writer.width
  fields : log'.writer.fields = log.writer.fields

variable {log log' : DataLog} {storage storage' : Storage}

theorem DataLog.SameForm.refl (log : DataLog) : SameForm log log := ⟨rfl, rfl, rfl, rfl⟩

/-- **Rows with as many fields** are both written, or both refused for the same reason. -/
theorem DataLog.SameForm.writeRow (h : SameForm log log') (hs : storage.SameLayout storage')
    {row row' : List String} (hrow : row'.length = row.length) :
    SameForm (log.writeRow storage row).1 (log'.writeRow storage' row').1
      ∧ (log.writeRow storage row).2.1.SameLayout (log'.writeRow storage' row').2.1
      ∧ (log'.writeRow storage' row').2.2 = (log.writeRow storage row).2.2 := by
  have hwriter : (log'.writer.write row').writer.width = (log.writer.write row).writer.width
      ∧ (log'.writer.write row').writer.fields = (log.writer.write row).writer.fields
      ∧ (log'.writer.write row').fault = (log.writer.write row).fault := by
    unfold Writer.write
    dsimp only
    rw [h.width, h.fields, hrow]
    split
    · exact ⟨rfl, rfl, rfl⟩
    · exact ⟨rfl, rfl, rfl⟩
  refine ⟨⟨h.path, h.place, hwriter.1, hwriter.2.1⟩, ?_, hwriter.2.2⟩
  show (storage.append log.place _).SameLayout (storage'.append log'.place _)
  rw [h.place]
  exact hs.put _ _ _

/-- Logs that are closed leave texts at the same place. -/
theorem DataLog.SameForm.close (h : SameForm log log') (hs : storage.SameLayout storage') :
    (log.close storage).SameLayout (log'.close storage') := by
  unfold DataLog.close
  rw [h.place]
  exact hs.put _ _ _

end Log

end CapacityControl
