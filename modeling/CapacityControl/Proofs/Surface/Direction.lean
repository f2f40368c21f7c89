/-
  CapacityControl.Proofs.Surface.Direction
  ────────────────────────────────────────
  IN WHICH DIRECTION SHARES MOVE.  Which cells of the rule table can apply is read off
  where their terms reach; on which side the sets that they recommend lie then decides
  the sign of the change, for every blend of them.
-/
import CapacityControl.Proofs.Surface.Coverage

namespace CapacityControl.Control

open Fuzzy
open Extended (finite)

variable {residual error : Rat} {cell : RuleCell}

/-! ## §1. Which sets can take part. -/

/-- Where a residual belongs to one term only, cells of other rows do not apply. -/
theorem residual_term_of_isOnly {t : ResidualTerm} (ht : t.IsOnly residual)
    (hcell : cell.strength residual error ≠ 0) : cell.1 = t :=
  (ht cell.1).mp ((RuleCell.strength_ne_zero_iff _ _ _).mp hcell).1

/-- Where an error belongs to one term only, cells of other columns do not apply. -/
theorem error_term_of_isOnly {u : ErrorTerm} (hu : u.IsOnly error)
    (hcell : cell.strength residual error ≠ 0) : cell.2 = u :=
  (hu cell.2).mp ((RuleCell.strength_ne_zero_iff _ _ _).mp hcell).2

/-- Without a shortage, the negative residual does not apply. -/
theorem residual_term_of_not_short (hresidual : 3 / 10 ≤ residual)
    (hcell : cell.strength residual error ≠ 0) : cell.1 ≠ .negative := by
  intro hnegative
  obtain ⟨t, u⟩ := cell
  obtain ⟨ht, _⟩ := (RuleCell.strength_ne_zero_iff _ _ _).mp hcell
  subst hnegative
  have hshort : residual < 3 / 10 := ht
  linarith

/-! ## §2. The sign of the change. -/

/-- An application without clear headroom never loses capacity. -/
theorem change_nonneg (residual : Rat) (herror : error ≤ 1 / 10) :
    0 ≤ change residual error := by
  have hhole : error ≠ 3 / 10 := by linarith
  refine apex_le_centroid (d := .stay) (RuleCell.strength_nonneg residual error)
    (RuleCell.strength_le_one residual error) (area_outlook_pos residual hhole) ?_
  intro cell hcell
  -- In the column of the low error the table recommends to stay or to go up.
  have hlow := error_term_of_isOnly (ErrorTerm.isOnly_low herror) hcell
  obtain ⟨t, u⟩ := cell
  subst hlow
  cases t with
  | negative | adequate =>
    right
    norm_num [RuleCell.recommended, recommended, DeltaTerm.left, DeltaTerm.apex]
  | positive => exact Or.inl rfl

/-- A resource next to a clear shortage gains capacity. -/
theorem change_pos (hresidual : residual ≤ 1 / 10) (herror : error ≠ 3 / 10) :
    0 < change residual error := by
  refine lt_centroid_blend (RuleCell.strength_nonneg residual error)
    (RuleCell.strength_le_one residual error) (area_outlook_pos residual herror) ?_
  intro cell hcell
  -- In the row of the negative residual the table recommends to go up throughout.
  have hnegative := residual_term_of_isOnly (ResidualTerm.isOnly_negative hresidual) hcell
  obtain ⟨t, u⟩ := cell
  subst hnegative
  cases u <;> norm_num [RuleCell.recommended, recommended, DeltaTerm.left]

/-- A resource next to a clear excess never gains capacity. -/
theorem change_nonpos (hresidual : 2 / 5 ≤ residual) (herror : error ≠ 3 / 10) :
    change residual error ≤ 0 := by
  refine centroid_le_apex (d := .stay) (RuleCell.strength_nonneg residual error)
    (RuleCell.strength_le_one residual error) (area_outlook_pos residual herror) ?_
  intro cell hcell
  -- In the row of the positive residual the table recommends to stay or to go down.
  have hpositive := residual_term_of_isOnly (ResidualTerm.isOnly_positive hresidual) hcell
  obtain ⟨t, u⟩ := cell
  subst hpositive
  cases u with
  | low => exact Or.inl rfl
  | fine | high =>
    right
    norm_num [RuleCell.recommended, recommended, DeltaTerm.right, DeltaTerm.apex]

/-- A resource without a shortage loses capacity where the application has headroom. -/
theorem change_neg (hresidual : 3 / 10 ≤ residual) (herror : 3 / 10 < error) :
    change residual error < 0 := by
  refine centroid_blend_lt (RuleCell.strength_nonneg residual error)
    (RuleCell.strength_le_one residual error) (area_outlook_pos residual herror.ne') ?_
  intro cell hcell
  -- In the column of the high error only the negative residual keeps a share from going down.
  have hhigh := error_term_of_isOnly (ErrorTerm.isOnly_high herror) hcell
  have hshort := residual_term_of_not_short hresidual hcell
  obtain ⟨t, u⟩ := cell
  subst hhigh
  cases t with
  | negative => exact absurd rfl hshort
  | adequate | positive => norm_num [RuleCell.recommended, recommended, DeltaTerm.right]

/-! ## §3. Direction. -/

/-- **Direction.**  Away from the hole every resource has a change whose sign its own residual
and the error decide, whatever the residual of the other resource. -/
theorem delta_direction (residuals : PerResource Rat) (error : Rat) (r : Resource)
    (herror : error ≠ 3 / 10) :
    ∃ engine d, respond surface (residuals.map finite) (finite error) = .ok engine
      ∧ delta engine r = finite d
      ∧ (error ≤ 1 / 10 → 0 ≤ d)
      ∧ (residuals.get r ≤ 1 / 10 → 0 < d)
      ∧ (2 / 5 ≤ residuals.get r → d ≤ 0)
      ∧ (3 / 10 ≤ residuals.get r → 3 / 10 < error → d < 0)
      ∧ (2 / 5 ≤ residuals.get r → error ≤ 1 / 10 → d = 0) := by
  refine ⟨_, change (residuals.get r) error, respond_finite residuals error,
    delta_finite residuals herror r, ?_, ?_, ?_, ?_, ?_⟩
  · intro hlow
    exact change_nonneg _ hlow
  · intro hshortage
    exact change_pos hshortage herror
  · intro hexcess
    exact change_nonpos hexcess herror
  · intro hresidual hhigh
    exact change_neg hresidual hhigh
  · intro hexcess hlow
    exact le_antisymm (change_nonpos hexcess herror) (change_nonneg _ hlow)

/-- Where excess meets an error without headroom, the share stays exactly. -/
theorem delta_direction_stay :
    (1 / 10 : Rat) ≠ 3 / 10
      ∧ ∃ engine, respond surface ((⟨2 / 5, 0⟩ : PerResource Rat).map finite)
            (finite (1 / 10)) = .ok engine
          ∧ delta engine .cpu = finite 0 := by
  have hne : (1 / 10 : Rat) ≠ 3 / 10 := by norm_num
  obtain ⟨engine, d, hrespond, hdelta, _, _, _, _, hstay⟩ :=
    delta_direction ⟨2 / 5, 0⟩ (1 / 10) .cpu hne
  have hzero : d = 0 := hstay (le_refl _) (le_refl _)
  exact ⟨hne, engine, hrespond, hzero ▸ hdelta⟩

end CapacityControl.Control
