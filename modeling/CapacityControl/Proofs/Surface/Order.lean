/-
  CapacityControl.Proofs.Surface.Order
  ────────────────────────────────────
  WHERE THE SURFACE FOLLOWS THE ORDER OF ITS TABLE.  Every row and every column of the rule
  table goes from `bigUp` down to `bigDown`.  Along a residual that belongs to one term
  only, the surface is a row of the table: two neighbouring sets at a time, of which the
  upper one loses weight while the lower one gains some, so the change never rises with
  the error (`change_anti_error`).  Along an error that belongs to one term only it is a
  column, and the change never rises with the residual (`change_anti_residual`).
-/
import CapacityControl.Proofs.Surface.Coverage
import CapacityControl.Proofs.Surface.Pair

namespace CapacityControl.Control

open Fuzzy
open Extended (finite)
open Centroid (standard)

variable {residual residual' error error' : Rat} {t : ResidualTerm} {u : ErrorTerm}

/-! ## §1. The order of the table. -/

theorem apex_fine_lt_low (t : ResidualTerm) :
    (recommended t .fine).apex < (recommended t .low).apex := by
  cases t <;> norm_num [recommended, DeltaTerm.apex]

theorem apex_high_le_fine (t : ResidualTerm) :
    (recommended t .high).apex ≤ (recommended t .fine).apex := by
  cases t <;> norm_num [recommended, DeltaTerm.apex]

theorem apex_adequate_lt_negative (u : ErrorTerm) :
    (recommended .adequate u).apex < (recommended .negative u).apex := by
  cases u <;> norm_num [recommended, DeltaTerm.apex]

theorem apex_positive_lt_adequate (u : ErrorTerm) :
    (recommended .positive u).apex < (recommended .adequate u).apex := by
  cases u <;> norm_num [recommended, DeltaTerm.apex]

/-! ## §2. Rows and columns. -/

/-- Only the cells of one row have weight. -/
theorem blend_row {w : RuleCell → Rat} (t : ResidualTerm) (h : ∀ cell, cell.1 ≠ t → w cell = 0)
    (x : Rat) :
    blend w x = 1 - (1 - w (t, .low) * (recommended t .low).degree x)
      * ((1 - w (t, .fine) * (recommended t .fine).degree x)
        * (1 - w (t, .high) * (recommended t .high).degree x)) := by
  have hrow (t' : ResidualTerm) (u : ErrorTerm) (hne : t' ≠ t) : w (t', u) = 0 := h (t', u) hne
  unfold blend
  cases t <;>
    simp [ruleCells, ResidualTerm.all, ErrorTerm.all, RuleCell.recommended, hrow]

/-- Only the cells of one column have weight. -/
theorem blend_column {w : RuleCell → Rat} (u : ErrorTerm) (h : ∀ cell, cell.2 ≠ u → w cell = 0)
    (x : Rat) :
    blend w x = 1 - (1 - w (.negative, u) * (recommended .negative u).degree x)
      * ((1 - w (.adequate, u) * (recommended .adequate u).degree x)
        * (1 - w (.positive, u) * (recommended .positive u).degree x)) := by
  have hcolumn (t : ResidualTerm) (u' : ErrorTerm) (hne : u' ≠ u) : w (t, u') = 0 := h (t, u') hne
  unfold blend
  cases u <;>
    simp [ruleCells, ResidualTerm.all, ErrorTerm.all, RuleCell.recommended, hcolumn]

/-- A cell whose residual or error term does not apply has no weight. -/
theorem strength_eq_zero {cell : RuleCell}
    (h : ¬ (cell.1.reaches residual ∧ cell.2.reaches error)) : cell.strength residual error = 0 :=
  not_not.mp ((RuleCell.strength_ne_zero_iff residual error cell).not.mpr h)

section Row

variable (ht : t.IsOnly residual)

include ht

/-- Up to the hole the surface is the first two cells of the row. -/
theorem change_row_of_lt (herror : error < 3 / 10) :
    change residual error
      = pairChange (RuleCell.strength residual error (t, .low)) (recommended t .low)
          (RuleCell.strength residual error (t, .fine)) (recommended t .fine) := by
  have hhigh : RuleCell.strength residual error (t, .high) = 0 :=
    strength_eq_zero fun h => absurd h.2 (not_lt.mpr herror.le)
  refine congrArg (standard.centroid · (-1) 1) (funext fun x => ?_)
  refine (blend_row t (fun cell hne => strength_eq_zero fun h => hne ((ht _).mp h.1)) x).trans ?_
  rw [hhigh, zero_mul, sub_zero, mul_one]
  rfl

theorem weights_row (herror : error < 3 / 10) :
    SomeWeights (RuleCell.strength residual error (t, .low))
      (RuleCell.strength residual error (t, .fine)) := by
  have hreach : t.reaches residual := (ht t).mpr rfl
  refine ⟨⟨RuleCell.strength_nonneg _ _ _, RuleCell.strength_le_one _ _ _,
    RuleCell.strength_nonneg _ _ _, RuleCell.strength_le_one _ _ _⟩, ?_⟩
  rcases lt_or_ge error (1 / 5) with hlow | hfine
  · exact add_pos_of_pos_of_nonneg ((RuleCell.strength_pos_iff _ _ _).mpr ⟨hreach, hlow⟩)
      (RuleCell.strength_nonneg _ _ _)
  · exact add_pos_of_nonneg_of_pos (RuleCell.strength_nonneg _ _ _)
      ((RuleCell.strength_pos_iff _ _ _).mpr
        ⟨hreach, lt_of_lt_of_le (by norm_num) hfine, herror⟩)

/-- From the apex of the fine error up to the hole only the cell of the fine error applies. -/
theorem change_row_fine (hfine : 1 / 5 ≤ error) (herror : error < 3 / 10) :
    change residual error = (recommended t .fine).apex := by
  have hlow : RuleCell.strength residual error (t, .low) = 0 :=
    strength_eq_zero fun h => absurd h.2 (not_lt.mpr hfine)
  have hweights := weights_row ht herror
  rw [hlow] at hweights
  rw [change_row_of_lt ht herror, hlow]
  exact pairChange_zero_upper _ _ (by linarith [hweights.some_pos]) hweights.lower_le

/-- Beyond the hole only the cell of the high error applies. -/
theorem change_row_high (herror : 3 / 10 < error) :
    change residual error = (recommended t .high).apex := by
  have hlow : RuleCell.strength residual error (t, .low) = 0 :=
    strength_eq_zero fun h => absurd h.2 (not_lt.mpr (by linarith))
  have hfine : RuleCell.strength residual error (t, .fine) = 0 :=
    strength_eq_zero fun h => absurd h.2.2 (not_lt.mpr herror.le)
  have hhigh : 0 < RuleCell.strength residual error (t, .high) :=
    (RuleCell.strength_pos_iff _ _ _).mpr ⟨(ht t).mpr rfl, herror⟩
  rw [← pairChange_zero_upper (recommended t .low) (recommended t .high) hhigh
    (RuleCell.strength_le_one _ _ _)]
  refine congrArg (standard.centroid · (-1) 1) (funext fun x => ?_)
  refine (blend_row t (fun cell hne => strength_eq_zero fun h => hne ((ht _).mp h.1)) x).trans ?_
  rw [hlow, hfine]
  unfold pair
  ring

/-- **Along a row** the change never rises with the error. -/
theorem change_anti_error (hle : error ≤ error') (herror : error ≠ 3 / 10)
    (herror' : error' ≠ 3 / 10) : change residual error' ≤ change residual error := by
  rcases lt_or_gt_of_ne herror with hbelow | habove
  · rw [change_row_of_lt ht hbelow]
    have hbounds := pair_bounds (apex_fine_lt_low t) (weights_row ht hbelow)
    rcases lt_or_gt_of_ne herror' with hbelow' | habove'
    · rcases lt_or_ge error' (1 / 5) with hrising | hfine
      · -- Up to the apex of the fine error one cell only loses, and the other only gains.
        rw [change_row_of_lt ht hbelow']
        refine pair_mono (apex_fine_lt_low t) (weights_row ht hbelow') (weights_row ht hbelow) ?_ ?_
        · exact min_le_min_left _ (Shape.falling_degree_anti (by norm_num) hle)
        · exact min_le_min_left _
            (Shape.triangle_degree_mono (by norm_num) (by norm_num) hle hrising.le)
      · rw [change_row_fine ht hfine hbelow']
        exact hbounds.1
    · rw [change_row_high ht habove']
      exact (apex_high_le_fine t).trans hbounds.1
  · rw [change_row_high ht habove, change_row_high ht (habove.trans_le hle)]

end Row

/-! ## §3. Columns. -/

section Column

variable (hu : u.IsOnly error)

include hu

/-- Up to the end of the negative residual the surface is the first two cells of the column. -/
theorem change_column_of_le (hresidual : residual ≤ 3 / 10) :
    change residual error
      = pairChange (RuleCell.strength residual error (.negative, u)) (recommended .negative u)
          (RuleCell.strength residual error (.adequate, u)) (recommended .adequate u) := by
  have hpositive : RuleCell.strength residual error (.positive, u) = 0 :=
    strength_eq_zero fun h => absurd h.1 (not_lt.mpr hresidual)
  refine congrArg (standard.centroid · (-1) 1) (funext fun x => ?_)
  refine (blend_column u (fun cell hne => strength_eq_zero fun h => hne ((hu _).mp h.2)) x).trans ?_
  rw [hpositive, zero_mul, sub_zero, mul_one]
  rfl

/-- From the beginning of the positive residual on it is the last two cells. -/
theorem change_column_of_ge (hresidual : 3 / 10 ≤ residual) :
    change residual error
      = pairChange (RuleCell.strength residual error (.adequate, u)) (recommended .adequate u)
          (RuleCell.strength residual error (.positive, u)) (recommended .positive u) := by
  have hnegative : RuleCell.strength residual error (.negative, u) = 0 :=
    strength_eq_zero fun h => absurd h.1 (not_lt.mpr hresidual)
  refine congrArg (standard.centroid · (-1) 1) (funext fun x => ?_)
  refine (blend_column u (fun cell hne => strength_eq_zero fun h => hne ((hu _).mp h.2)) x).trans ?_
  rw [hnegative, zero_mul, sub_zero, one_mul]
  rfl

theorem weights_column_of_le (hresidual : residual ≤ 3 / 10) :
    SomeWeights (RuleCell.strength residual error (.negative, u))
      (RuleCell.strength residual error (.adequate, u)) := by
  have hreach : u.reaches error := (hu u).mpr rfl
  refine ⟨⟨RuleCell.strength_nonneg _ _ _, RuleCell.strength_le_one _ _ _,
    RuleCell.strength_nonneg _ _ _, RuleCell.strength_le_one _ _ _⟩, ?_⟩
  rcases hresidual.lt_or_eq with hshort | hend
  · exact add_pos_of_pos_of_nonneg ((RuleCell.strength_pos_iff _ _ _).mpr ⟨hshort, hreach⟩)
      (RuleCell.strength_nonneg _ _ _)
  · refine add_pos_of_nonneg_of_pos (RuleCell.strength_nonneg _ _ _)
      ((RuleCell.strength_pos_iff _ _ _).mpr ⟨?_, hreach⟩)
    subst hend
    norm_num [ResidualTerm.reaches]

theorem weights_column_of_ge (hresidual : 3 / 10 ≤ residual) :
    SomeWeights (RuleCell.strength residual error (.adequate, u))
      (RuleCell.strength residual error (.positive, u)) := by
  have hreach : u.reaches error := (hu u).mpr rfl
  refine ⟨⟨RuleCell.strength_nonneg _ _ _, RuleCell.strength_le_one _ _ _,
    RuleCell.strength_nonneg _ _ _, RuleCell.strength_le_one _ _ _⟩, ?_⟩
  rcases hresidual.lt_or_eq with hexcess | hend
  · exact add_pos_of_nonneg_of_pos (RuleCell.strength_nonneg _ _ _)
      ((RuleCell.strength_pos_iff _ _ _).mpr ⟨hexcess, hreach⟩)
  · refine add_pos_of_pos_of_nonneg ((RuleCell.strength_pos_iff _ _ _).mpr ⟨?_, hreach⟩)
      (RuleCell.strength_nonneg _ _ _)
    subst hend
    norm_num [ResidualTerm.reaches]

/-- From the beginning of the positive residual on the change never rises. -/
theorem change_anti_excess (hle : residual ≤ residual') (hresidual : 3 / 10 ≤ residual) :
    change residual' error ≤ change residual error := by
  have hresidual' := hresidual.trans hle
  rw [change_column_of_ge hu hresidual, change_column_of_ge hu hresidual']
  refine pair_mono (apex_positive_lt_adequate u) (weights_column_of_ge hu hresidual')
    (weights_column_of_ge hu hresidual) ?_ ?_
  · exact min_le_min_right _ (Shape.triangle_degree_anti (by norm_num) (by norm_num) hle
      (by linarith))
  · exact min_le_min_right _ (Shape.rising_degree_mono (by norm_num) hle)

/-- As long as the adequate residual does not lose weight, the change never rises. -/
theorem change_anti_of_adequate_le (hle : residual ≤ residual') (hresidual' : residual' ≤ 3 / 10)
    (hadequate : RuleCell.strength residual error (.adequate, u)
      ≤ RuleCell.strength residual' error (.adequate, u)) :
    change residual' error ≤ change residual error := by
  have hresidual := hle.trans hresidual'
  rw [change_column_of_le hu hresidual, change_column_of_le hu hresidual']
  exact pair_mono (apex_adequate_lt_negative u) (weights_column_of_le hu hresidual')
    (weights_column_of_le hu hresidual)
    (min_le_min_right _ (Shape.falling_degree_anti (by norm_num) hle)) hadequate

/-- Where the adequate residual loses weight without being limited by the error, so does the
negative one, half as fast. -/
theorem change_anti_of_falling (hle : residual ≤ residual') (hresidual : 1 / 4 ≤ residual)
    (hresidual' : residual' ≤ 3 / 10)
    (hfree : ResidualTerm.adequate.ratShape.degree residual ≤ u.ratShape.degree error) :
    change residual' error ≤ change residual error := by
  obtain ⟨p, m, hpivot⟩ := exists_pivot u
  have hlow : residual ≤ 3 / 10 := hle.trans hresidual'
  have hfar : 1 / 4 ≤ residual' := hresidual.trans hle
  -- Both weights are those of the residual, along the line that `line_mono` is about.
  have hline (z : Rat) (hz : residual ≤ z) (hz' : z ≤ 3 / 10) :
      change z error = pairChange (1 - 10 / 3 * z) (recommended .negative u)
        (2 / 3 + 2 * (1 - 10 / 3 * z)) (recommended .adequate u) := by
    have hadequate := ResidualTerm.adequate_degree_falling (hresidual.trans hz) (by linarith)
    have hnegative := ResidualTerm.negative_degree_eq (by linarith) hz'
    have hless : ResidualTerm.adequate.ratShape.degree z ≤ u.ratShape.degree error :=
      (Shape.triangle_degree_anti (by norm_num) (by norm_num) hz hresidual).trans hfree
    rw [change_column_of_le hu hz']
    unfold RuleCell.strength
    rw [min_eq_left hless, min_eq_left (by rw [hnegative]; rw [hadequate] at hless; linarith),
      hnegative, hadequate]
    congr 1
    ring
  rw [hline residual le_rfl hlow, hline residual' hle hresidual']
  exact hpivot.line_mono (by linarith) (by linarith) (by linarith)

/-- Up to the end of the negative residual the change never rises. -/
theorem change_anti_shortage (hle : residual ≤ residual') (hresidual' : residual' ≤ 3 / 10) :
    change residual' error ≤ change residual error := by
  rcases le_or_gt (RuleCell.strength residual error (.adequate, u))
    (RuleCell.strength residual' error (.adequate, u)) with hgain | hloss
  · exact change_anti_of_adequate_le hu hle hresidual' hgain
  · -- On the way there is a residual with the same weight as at the beginning, and behind it
    -- the error does not limit that weight any more.
    have hlimit : RuleCell.strength residual error (.adequate, u) ≤ u.ratShape.degree error :=
      min_le_right _ _
    obtain ⟨middle, hmiddle, hbefore, hafter, hdegree⟩ := ResidualTerm.exists_adequate_falling
      (RuleCell.strength_le_one residual error (.adequate, u)) hle (hresidual'.trans (by norm_num)) (min_le_left _ _)
      ((min_lt_iff.mp hloss).resolve_right (not_lt.mpr hlimit))
    refine (change_anti_of_falling hu hafter hmiddle hresidual' (hdegree ▸ hlimit)).trans
      (change_anti_of_adequate_le hu hbefore (hafter.trans hresidual') ?_)
    exact le_min hdegree.ge hlimit

/-- **Along a column** the change never rises with the residual. -/
theorem change_anti_residual (hle : residual ≤ residual') :
    change residual' error ≤ change residual error := by
  rcases le_total residual' (3 / 10) with hshort' | hexcess'
  · exact change_anti_shortage hu hle hshort'
  · rcases le_total residual (3 / 10) with hshort | hexcess
    · exact (change_anti_excess hu hexcess' le_rfl).trans (change_anti_shortage hu hshort le_rfl)
    · exact change_anti_excess hu hle hexcess

end Column

end CapacityControl.Control
