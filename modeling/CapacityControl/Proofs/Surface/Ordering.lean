/-
  CapacityControl.Proofs.Surface.Ordering
  ───────────────────────────────────────
  WHERE THE SURFACE IS MONOTONE.  Every row and every column of the rule table goes from
  `bigUp` down to `bigDown`, but blending does not keep that order everywhere: along a
  coordinate that two terms share, one cell may have all the weight that its term allows
  while the other one goes on gaining some.  So the change falls with the error, or with
  the residual, exactly along the lines that belong to one term only, and along the line on
  which two terms apply alike (`surface_falls_iff`).
-/
import CapacityControl.Proofs.Surface.Disorder
import CapacityControl.Proofs.Surface.Lines

namespace CapacityControl.Control

open Fuzzy
open Extended (finite)

variable {r : Resource} {residuals : PerResource Rat} {residual error d : Rat}

/-! ## §1. Answers. -/

/-- Fed with these residuals and this error, the surface answers with a change of a resource. -/
def Answers (r : Resource) (residuals : PerResource Rat) (error d : Rat) : Prop :=
  ∃ engine, respond surface (residuals.map finite) (finite error) = .ok engine
    ∧ delta engine r = finite d

theorem answers_iff (herror : error ≠ 3 / 10) :
    Answers r residuals error d ↔ d = change (residuals.get r) error := by
  constructor
  · rintro ⟨engine, hrespond, hdelta⟩
    rw [respond_finite] at hrespond
    obtain rfl := Except.ok.inj hrespond
    rw [delta_finite residuals herror r] at hdelta
    exact (Extended.finite.inj hdelta).symm
  · rintro rfl
    exact ⟨_, respond_finite residuals error, delta_finite residuals herror r⟩

/-- A larger error never gives a larger change. -/
def FallsWithError (r : Resource) (residuals : PerResource Rat) : Prop :=
  ∀ error error', error ≤ error' → error ≠ 3 / 10 → error' ≠ 3 / 10 →
    ∃ d d', Answers r residuals error d ∧ Answers r residuals error' d' ∧ d' ≤ d

/-- A larger residual of the resource never gives a larger change. -/
def FallsWithResidual (r : Resource) (residuals : PerResource Rat) (error : Rat) : Prop :=
  ∀ residual residual', residual ≤ residual' →
    ∃ d d', Answers r (residuals.set r residual) error d
      ∧ Answers r (residuals.set r residual') error d' ∧ d' ≤ d

/-- Whether the change falls with the error is a matter of the own residual only. -/
theorem fallsWithError_iff : FallsWithError r residuals ↔ ¬ RisesWithError (residuals.get r) := by
  unfold FallsWithError RisesWithError
  push Not
  refine forall₂_congr fun error error' => forall₃_congr fun _ herror herror' => ?_
  simp only [answers_iff herror, answers_iff herror', exists_eq_left, exists_and_left]

theorem fallsWithResidual_iff (herror : error ≠ 3 / 10) :
    FallsWithResidual r residuals error ↔ ¬ RisesWithResidual error := by
  unfold FallsWithResidual RisesWithResidual
  push Not
  refine forall₃_congr fun residual residual' _ => ?_
  simp only [answers_iff herror, PerResource.get_set, if_true, exists_eq_left, exists_and_left]

/-! ## §2. Along which lines the change falls. -/

/-- Along a residual that no two terms share, or share alike, the change never rises. -/
theorem rises_with_error_iff :
    RisesWithError residual
      ↔ ¬ (residual ≤ 1 / 10 ∨ residual = 3 / 10 ∨ residual = 13 / 34 ∨ 2 / 5 ≤ residual) := by
  constructor
  · rintro ⟨error, error', hle, herror, herror', hlt⟩ (hlow | rfl | rfl | hhigh)
    · exact absurd (change_anti_error (ResidualTerm.isOnly_negative hlow) hle herror herror')
        (not_le.mpr hlt)
    · exact absurd (change_anti_error ResidualTerm.isOnly_adequate hle herror herror')
        (not_le.mpr hlt)
    · exact absurd (change_anti_error_alike hle herror herror') (not_le.mpr hlt)
    · exact absurd (change_anti_error (ResidualTerm.isOnly_positive hhigh) hle herror herror')
        (not_le.mpr hlt)
  · intro hshared
    push Not at hshared
    obtain ⟨hlow, hmiddle, hpoint, hhigh⟩ := hshared
    exact rises_with_error hlow hhigh hmiddle hpoint

theorem rises_with_residual_iff (herror : error ≠ 3 / 10) :
    RisesWithResidual error ↔ ¬ (error ≤ 1 / 10 ∨ error = 4 / 35 ∨ 1 / 5 ≤ error) := by
  constructor
  · rintro ⟨residual, residual', hle, hlt⟩ (hlow | rfl | hhigh)
    · exact absurd (change_anti_residual (ErrorTerm.isOnly_low hlow) hle) (not_le.mpr hlt)
    · exact absurd (change_anti_residual_alike hle) (not_le.mpr hlt)
    · rcases lt_or_gt_of_ne herror with hbelow | habove
      · exact absurd (change_anti_residual (ErrorTerm.isOnly_fine hhigh hbelow) hle)
          (not_le.mpr hlt)
      · exact absurd (change_anti_residual (ErrorTerm.isOnly_high habove) hle) (not_le.mpr hlt)
  · intro hshared
    push Not at hshared
    obtain ⟨hlow, hpoint, hhigh⟩ := hshared
    exact rises_with_residual hlow hhigh hpoint

/-- **Where the surface is monotone.**  With the residuals fixed, a larger error never gives a
resource a larger change exactly if its residual is at most `1/10`, at least `2/5`, or one of
`3/10` and `13/34`.  With the error fixed, a larger residual never does exactly if the error
is at most `1/10`, at least `1/5`, or `4/35`.  The error `3/10`, where no rule fires, is left
out throughout. -/
theorem surface_falls_iff (r : Resource) (residuals : PerResource Rat) :
    (FallsWithError r residuals
        ↔ residuals.get r ≤ 1 / 10 ∨ residuals.get r = 3 / 10 ∨ residuals.get r = 13 / 34
          ∨ 2 / 5 ≤ residuals.get r)
      ∧ ∀ error, error ≠ 3 / 10 →
          (FallsWithResidual r residuals error
            ↔ error ≤ 1 / 10 ∨ error = 4 / 35 ∨ 1 / 5 ≤ error) := by
  refine ⟨?_, fun error herror => ?_⟩
  · rw [fallsWithError_iff, rises_with_error_iff, not_not]
  · rw [fallsWithResidual_iff herror, rises_with_residual_iff herror, not_not]

/-- Next to a shortage and to an error without headroom the surface is monotone. -/
theorem surface_falls_next_to_shortage :
    (1 / 10 : Rat) ≠ 3 / 10 ∧ FallsWithError .cpu ⟨0, 1 / 8⟩
      ∧ FallsWithResidual .cpu ⟨0, 1 / 8⟩ (1 / 10) := by
  have hne : (1 / 10 : Rat) ≠ 3 / 10 := by norm_num
  obtain ⟨herror, hresidual⟩ := surface_falls_iff .cpu ⟨0, 1 / 8⟩
  exact ⟨hne, herror.mpr (Or.inl (by norm_num [PerResource.get])),
    (hresidual (1 / 10) hne).mpr (Or.inl le_rfl)⟩

/-- Where a shortage turns into an adequate residual, an application that does better gets
more, from `0` at an error of `3/8` to `5/72` at one of `1`.  And where the error turns from a
low one into a fine one, a resource gets more with a larger residual. -/
theorem surface_rises :
    (Answers .cpu ⟨1 / 8, 1 / 8⟩ (3 / 8) 0 ∧ Answers .cpu ⟨1 / 8, 1 / 8⟩ 1 (5 / 72)
        ∧ Answers .memory ⟨1 / 8, 1 / 8⟩ (3 / 8) 0 ∧ Answers .memory ⟨1 / 8, 1 / 8⟩ 1 (5 / 72)
        ∧ (3 / 8 : Rat) < 1 ∧ (0 : Rat) < 5 / 72)
      ∧ (Answers .cpu ⟨0, 1 / 8⟩ (3 / 16) (17343801 / 97464250)
        ∧ Answers .cpu ⟨1 / 16, 1 / 8⟩ (3 / 16) (48985317 / 268017250)
        ∧ (0 : Rat) < 1 / 16 ∧ (17343801 / 97464250 : Rat) < 48985317 / 268017250) := by
  have hbetter : change (1 / 8) (3 / 8) = 0 := by
    rw [change_column_of_le (ErrorTerm.isOnly_high (by norm_num)) (by norm_num)]
    decide +kernel
  have hbest : change (1 / 8) 1 = 5 / 72 := by
    rw [change_column_of_le (ErrorTerm.isOnly_high (by norm_num)) (by norm_num)]
    decide +kernel
  have hnone : change 0 (3 / 16) = 17343801 / 97464250 := by
    rw [change_row_of_lt (ResidualTerm.isOnly_negative (by norm_num)) (by norm_num)]
    decide +kernel
  have hsome : change (1 / 16) (3 / 16) = 48985317 / 268017250 := by
    rw [change_row_of_lt (ResidualTerm.isOnly_negative (by norm_num)) (by norm_num)]
    decide +kernel
  refine ⟨⟨?_, ?_, ?_, ?_, by norm_num, by norm_num⟩, ?_, ?_, by norm_num, by norm_num⟩
  · exact (answers_iff (by norm_num)).mpr hbetter.symm
  · exact (answers_iff (by norm_num)).mpr hbest.symm
  · exact (answers_iff (by norm_num)).mpr hbetter.symm
  · exact (answers_iff (by norm_num)).mpr hbest.symm
  · exact (answers_iff (by norm_num)).mpr hnone.symm
  · exact (answers_iff (by norm_num)).mpr hsome.symm

end CapacityControl.Control
