/-
  CapacityControl.Proofs.Surface.Coverage
  ───────────────────────────────────────
  THE RULE BASE COVERS every residual and every error but one.  The terms of a residual
  overlap over the whole line, and those of the error meet at `3/10` without overlapping
  there.  Elsewhere some cell applies, its set is met by a sample point, and the
  centroid stays between the apexes of the two outermost sets.
-/
import CapacityControl.Proofs.Surface.Balance

namespace CapacityControl.Control

open Fuzzy
open Extended (finite)
open Centroid (standard)

variable {residual error : Rat}

/-! ## §1. Some cell applies. -/

theorem exists_strength_pos (residual : Rat) (herror : error ≠ 3 / 10) :
    ∃ cell, 0 < RuleCell.strength residual error cell := by
  obtain ⟨t, ht⟩ := ResidualTerm.exists_reaches residual
  obtain ⟨u, hu⟩ := (ErrorTerm.exists_reaches_iff error).mpr herror
  exact ⟨(t, u), (RuleCell.strength_pos_iff residual error (t, u)).mpr ⟨ht, hu⟩⟩

/-- At the hole no cell applies, whatever the residual. -/
theorem strength_hole (residual : Rat) (cell : RuleCell) :
    cell.strength residual (3 / 10) = 0 := by
  by_contra hne
  obtain ⟨_, hreach⟩ := (RuleCell.strength_ne_zero_iff _ _ _).mp hne
  exact (ErrorTerm.exists_reaches_iff (3 / 10)).mp ⟨cell.2, hreach⟩ rfl

theorem area_outlook_pos (residual : Rat) (herror : error ≠ 3 / 10) :
    0 < standard.area (outlook residual error) (-1) 1 := by
  obtain ⟨cell, hcell⟩ := exists_strength_pos residual herror
  exact area_blend_pos (RuleCell.strength_nonneg residual error)
    (RuleCell.strength_le_one residual error) hcell

/-! ## §2. The change is bounded. -/

theorem le_change (residual : Rat) (herror : error ≠ 3 / 10) :
    -11 / 20 ≤ change residual error := by
  -- Every set but the lowest one begins to the right of the lowest apex.
  refine apex_le_centroid (d := .bigDown) (RuleCell.strength_nonneg residual error)
    (RuleCell.strength_le_one residual error) (area_outlook_pos residual herror) ?_
  intro cell _
  cases cell.recommended with
  | bigDown => exact Or.inl rfl
  | down | stay | up | bigUp =>
    right
    norm_num [DeltaTerm.apex, DeltaTerm.left]

theorem change_le (residual : Rat) (herror : error ≠ 3 / 10) :
    change residual error ≤ 11 / 20 := by
  -- Every set but the highest one ends to the left of the highest apex.
  refine centroid_le_apex (d := .bigUp) (RuleCell.strength_nonneg residual error)
    (RuleCell.strength_le_one residual error) (area_outlook_pos residual herror) ?_
  intro cell _
  cases cell.recommended with
  | bigUp => exact Or.inl rfl
  | bigDown | down | stay | up =>
    right
    norm_num [DeltaTerm.apex, DeltaTerm.right]

/-! ## §3. What the surface answers. -/

theorem respond_finite (residuals : PerResource Rat) (error : Rat) :
    respond surface (residuals.map finite) (finite error)
      = .ok (answered (residuals.map finite) (finite error)) := by
  refine respond_surface _ _ (fun r => ?_) rfl
  rw [PerResource.get_map]
  rfl

/-- Away from the hole the surface answers with the change. -/
theorem delta_finite (residuals : PerResource Rat) (herror : error ≠ 3 / 10) (r : Resource) :
    delta (answered (residuals.map finite) (finite error)) r
      = finite (change (residuals.get r) error) := by
  rw [delta_answered, PerResource.get_map]
  exact response_value (area_outlook_pos (residuals.get r) herror) r

/-- At the hole the surface answers with no change at all. -/
theorem delta_hole (residuals : PerResource Rat) (r : Resource) :
    delta (answered (residuals.map finite) (finite (3 / 10))) r = .nan := by
  rw [delta_answered, PerResource.get_map]
  exact response_value_of_silent (strength_hole (residuals.get r)) r

theorem firings_hole (residuals : PerResource Rat) :
    (answered (residuals.map finite) (finite (3 / 10))).firings = [] := by
  have hnone : ∀ (r : Resource) (residual : Rat),
      ruleCells.filterMap (RuleCell.firing? r (finite residual) (finite (3 / 10))) = [] := by
    intro r residual
    rw [List.filterMap_eq_nil_iff]
    intro cell _
    unfold RuleCell.firing?
    rw [activation?_finite, strength_hole, if_neg (lt_irrefl 0)]
    rfl
  show (fedSurface (residuals.map finite) (finite (3 / 10))).firings = []
  rw [firings_fedSurface]
  show List.filterMap (RuleCell.firing? .cpu (finite residuals.cpu) _) _
    ++ List.filterMap (RuleCell.firing? .memory (finite residuals.memory) _) _ = []
  rw [hnone, hnone]
  rfl

/-- **Coverage and bound.**  From any residuals and any error the surface comes to an answer:
changes between `-11/20` and `11/20`, unless the error is exactly `3/10`, where no rule
fires and neither change is defined. -/
theorem surface_covers_all_but_one_error (residuals : PerResource Rat) (error : Rat) :
    ∃ engine, respond surface (residuals.map finite) (finite error) = .ok engine
      ∧ (error ≠ 3 / 10 → ∀ r, ∃ d : Rat, delta engine r = finite d
          ∧ -11 / 20 ≤ d ∧ d ≤ 11 / 20)
      ∧ (error = 3 / 10 → engine.firings = [] ∧ (∀ v ∈ engine.outputs, v.isActivated = false)
          ∧ ∀ r, delta engine r = .nan) := by
  refine ⟨_, respond_finite residuals error, ?_, ?_⟩
  · intro herror r
    exact ⟨_, delta_finite residuals herror r, le_change _ herror, change_le _ herror⟩
  · rintro rfl
    refine ⟨firings_hole residuals, ?_, delta_hole residuals⟩
    intro v hv
    have houtputs : v = response .cpu (finite residuals.cpu) (finite (3 / 10))
        ∨ v = response .memory (finite residuals.memory) (finite (3 / 10)) := by
      simpa [answered, PerResource.map] using hv
    rcases houtputs with rfl | rfl
    · exact (isActivated_response _ _ _).mpr (strength_hole residuals.cpu)
    · exact (isActivated_response _ _ _).mpr (strength_hole residuals.memory)

end CapacityControl.Control
