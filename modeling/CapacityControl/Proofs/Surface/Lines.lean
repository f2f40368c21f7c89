/-
  CapacityControl.Proofs.Surface.Lines
  ────────────────────────────────────
  THE TWO LINES THROUGH THE OVERLAPS.  At the residual `13/34` the adequate and the positive
  residual apply alike, at the error `4/35` the low and the fine error do.  These are the only
  two lines through an overlap along which the surface still follows the order of its table:
  the change never rises with the error (`change_anti_error_alike`) or with the residual
  (`change_anti_residual_alike`).  Each line is put together from pieces, along which no more
  than one of the two pairs of equal weights changes, or one exchanges weight with the other.
-/
import CapacityControl.Proofs.Surface.Alike
import Mathlib.Order.Monotone.Union

namespace CapacityControl.Control

open Fuzzy
open Centroid (standard)
open Set (Iic Ici Icc Ico Ioi)

variable {a a' b b' c residual error error' : Rat}

/-! ## §1. Pairs of equal weights. -/

/-- **More of `stay` and `down` alike** moves the change up, since what they have in common, which
the blend counts once, lies far down. -/
theorem stay_down_mono (hb0 : 0 < b) (hbb : b ≤ b') (hb : b' ≤ 1) :
    pairChange b .stay b .down ≤ pairChange b' .stay b' .down := by
  -- The pivot: what both have in common lies left of it, what each pair has in all lies right.
  have hshared : standard.lever (shared .stay .down) (-1) 1 (-3 / 50) ≤ 0 := by
    have hmirror : standard.lever (shared .stay .down) (-1) 1 (-3 / 50)
        = -standard.lever (shared .up .stay) (-1) 1 (-1 + 1 - -3 / 50) := by
      refine Centroid.lever_mirror (fun _ _ => ?_) _
      unfold shared
      rw [neg_add_cancel, zero_sub, DeltaTerm.up_mirror, DeltaTerm.stay_mirror, mul_comm]
    norm_num at hmirror
    linarith [lever_shared_up_stay]
  have hright : 0 ≤ standard.lever (gained 1 .stay .down b') (-1) 1 (-3 / 50) := by
    have hless := mul_nonpos_of_nonneg_of_nonpos (hb0.le.trans hbb) hshared
    rw [lever_gained, DeltaTerm.lever_degree_at, DeltaTerm.lever_degree_at]
    norm_num [DeltaTerm.apex, DeltaTerm.mass]
    linarith
  rw [pairChange_same hb0.ne', pairChange_same (hb0.trans_le hbb).ne']
  exact Centroid.centroid_ge_of_pivot (area_gained_pos hb) (area_gained_pos (hbb.trans hb))
    (gained_eq_add .stay .down b b') (by linarith) hright hshared area_shared_nonneg

/-- **More of `down` and `bigDown` alike** moves the change down, since what they have in common
lies far up. -/
theorem down_bigDown_anti (hb0 : 0 < b) (hbb : b ≤ b') (hb : b' ≤ 1) :
    pairChange b' .down b' .bigDown ≤ pairChange b .down b .bigDown := by
  have hshared : 0 ≤ standard.lever (shared .down .bigDown) (-1) 1 (-3 / 10) := by
    refine Finset.sum_nonneg fun i _ => ?_
    generalize standard.point (-1) 1 i = x
    rcases le_total x (-1 / 5) with hx | hx
    · unfold shared
      rw [DeltaTerm.degree_of_le_left (d := .down) hx, zero_mul, mul_zero]
    · exact mul_nonneg (by linarith) (shared_nonneg _ _ _)
  have hleft : standard.lever (gained 1 .down .bigDown b') (-1) 1 (-3 / 10) ≤ 0 := by
    have hless := mul_nonneg (hb0.le.trans hbb) hshared
    rw [lever_gained, DeltaTerm.lever_degree_at, DeltaTerm.lever_degree_at]
    norm_num [DeltaTerm.apex, DeltaTerm.mass]
    linarith
  rw [pairChange_same hb0.ne', pairChange_same (hb0.trans_le hbb).ne']
  exact Centroid.centroid_le_of_pivot (area_gained_pos hb) (area_gained_pos (hbb.trans hb))
    (gained_eq_add .down .bigDown b b') (by linarith) hleft hshared area_shared_nonneg

/-! ## §2. The residual `13/34`. -/

/-- A function of two weights of which one is always at the limit `c`. -/
theorem anti_of_limited {F : Rat → Rat → Rat}
    (hright : ∀ b b', 0 ≤ b → b ≤ b' → b' ≤ c → F c b' ≤ F c b)
    (hleft : ∀ a a', 0 ≤ a → a ≤ a' → a' ≤ c → F a c ≤ F a' c)
    (ha : 0 ≤ a') (haa : a' ≤ a) (hac : a ≤ c) (hb : 0 ≤ b) (hbb : b ≤ b') (hbc : b' ≤ c)
    (hlimit : a = c ∨ b = c) (hlimit' : a' = c ∨ b' = c) : F a' b' ≤ F a b := by
  rcases hlimit' with hfirst | hsecond
  · have hfull : a = c := le_antisymm hac (hfirst.ge.trans haa)
    rw [hfirst, hfull]
    exact hright b b' hb hbb hbc
  · rw [hsecond]
    refine (hleft a' a ha haa hac).trans ?_
    rcases hlimit with hfull | hfull
    · rw [hfull]
      exact hright b c hb (hbb.trans hbc) le_rfl
    · rw [hfull]

theorem adequate_degree_alike : ResidualTerm.adequate.ratShape.degree (13 / 34) = 2 / 17 := by
  rw [ResidualTerm.adequate_degree_falling (by norm_num) (by norm_num)]
  norm_num

theorem positive_degree_alike : ResidualTerm.positive.ratShape.degree (13 / 34) = 2 / 17 := by
  rw [ResidualTerm.positive_degree_eq (by norm_num) (by norm_num)]
  norm_num

/-- Up to the hole, the surface at `13/34`. -/
theorem outlook_residual_alike {error : Rat} (herror : error ≤ 3 / 10) :
    outlook (13 / 34) error
      = excessAlike (min (2 / 17) (ErrorTerm.low.ratShape.degree error))
          (min (2 / 17) (ErrorTerm.fine.ratShape.degree error)) := by
  rw [outlook_excess (by norm_num) herror]
  unfold rowPair RuleCell.strength excessAlike
  rw [adequate_degree_alike, positive_degree_alike]
  funext x
  simp only [overlay, pair, recommended]
  ring

/-- Up to the apex of the fine error one of the two weights is always all that the residual
allows. -/
theorem anti_error_low : AntitoneOn (change (13 / 34)) (Iic (1 / 5)) := by
  have hlimit (e : Rat) (he : e ≤ 1 / 5) :
      min (2 / 17) (ErrorTerm.low.ratShape.degree e) = 2 / 17
        ∨ min (2 / 17) (ErrorTerm.fine.ratShape.degree e) = 2 / 17 := by
    -- At `1/8` both degrees of the error are beyond `2/17`.
    rcases le_total e (1 / 8) with hlow | hfine
    · have hless : ErrorTerm.low.ratShape.degree (1 / 8) ≤ ErrorTerm.low.ratShape.degree e :=
        Shape.falling_degree_anti (by norm_num) hlow
      rw [ErrorTerm.low_degree_eq (by norm_num) (by norm_num)] at hless
      exact Or.inl (min_eq_left (by linarith))
    · rw [ErrorTerm.fine_degree_rising (by linarith) he]
      exact Or.inr (min_eq_left (by linarith))
  intro error herror error' herror' hle
  rw [Set.mem_Iic] at herror herror'
  unfold change
  rw [outlook_residual_alike (herror.trans (by norm_num)),
    outlook_residual_alike (herror'.trans (by norm_num))]
  exact anti_of_limited (F := fun a b => standard.centroid (excessAlike a b) (-1) 1) (c := 2 / 17)
    (fun _ _ => excess_anti (by norm_num) (by norm_num))
    (fun _ _ => excess_mono (by norm_num) (by norm_num))
    (le_min (by norm_num) (Shape.degree_nonneg _ _))
    (min_le_min_left _ (Shape.falling_degree_anti (by norm_num) hle)) (min_le_left _ _)
    (le_min (by norm_num) (Shape.degree_nonneg _ _))
    (min_le_min_left _ (Shape.triangle_degree_mono (by norm_num) (by norm_num) hle herror'))
    (min_le_left _ _) (hlimit error herror) (hlimit error' herror')

/-- The columns of the fine and of the high error at `13/34`. -/
theorem change_alike {u : ErrorTerm} (hu : u.IsOnly error) :
    change (13 / 34) error
      = pairChange (min (2 / 17) (u.ratShape.degree error)) (recommended .adequate u)
          (min (2 / 17) (u.ratShape.degree error)) (recommended .positive u) := by
  rw [change_column_of_ge hu (by norm_num)]
  unfold RuleCell.strength
  rw [adequate_degree_alike, positive_degree_alike]

theorem limited_pos {u : ErrorTerm} (hu : u.IsOnly error) :
    0 < min (2 / 17) (u.ratShape.degree error) :=
  lt_min (by norm_num) ((ErrorTerm.degree_pos_iff u error).mpr ((hu u).mpr rfl))

theorem limited_le_one (u : ErrorTerm) (error : Rat) : min (2 / 17) (u.ratShape.degree error) ≤ 1 :=
  (min_le_left _ _).trans (by norm_num)

/-- From the apex of the fine error up to the hole. -/
theorem anti_error_fine : AntitoneOn (change (13 / 34)) (Ico (1 / 5) (3 / 10)) := by
  intro error herror error' herror' hle
  have hfine := ErrorTerm.isOnly_fine herror.1 herror.2
  have hfine' := ErrorTerm.isOnly_fine herror'.1 herror'.2
  rw [change_alike hfine, change_alike hfine']
  exact stay_down_mono (limited_pos hfine')
    (min_le_min_left _ (Shape.triangle_degree_anti (by norm_num) (by norm_num) hle herror.1))
    (limited_le_one _ _)

/-- Beyond the hole. -/
theorem anti_error_high : AntitoneOn (change (13 / 34)) (Ioi (3 / 10)) := by
  intro error herror error' herror' hle
  have hhigh := ErrorTerm.isOnly_high herror
  rw [change_alike hhigh, change_alike (ErrorTerm.isOnly_high herror')]
  exact down_bigDown_anti (limited_pos hhigh)
    (min_le_min_left _ (Shape.rising_degree_mono (by norm_num) hle)) (limited_le_one _ _)

/-- Up to the hole. -/
theorem anti_error_below : AntitoneOn (change (13 / 34)) (Set.Iio (3 / 10)) := by
  have hunion := anti_error_low.union_right anti_error_fine isGreatest_Iic
    (isLeast_Ico (by norm_num))
  rwa [Set.Iic_union_Ico_eq_Iio (by norm_num)] at hunion

/-- **At the residual `13/34`** the change never rises with the error. -/
theorem change_anti_error_alike (hle : error ≤ error') (herror : error ≠ 3 / 10)
    (herror' : error' ≠ 3 / 10) : change (13 / 34) error' ≤ change (13 / 34) error := by
  rcases lt_or_gt_of_ne herror' with hbelow' | habove'
  · exact anti_error_below (hle.trans_lt hbelow') hbelow' hle
  · rcases lt_or_gt_of_ne herror with hbelow | habove
    · -- The apex of `down` lies between the changes on both sides of the hole.
      have hhigh := ErrorTerm.isOnly_high habove'
      have hupper : change (13 / 34) error' ≤ DeltaTerm.down.apex := by
        rw [change_column_of_ge hhigh (by norm_num)]
        exact (pair_bounds (apex_positive_lt_adequate .high)
          (weights_column_of_ge hhigh (by norm_num))).2
      have hlower : DeltaTerm.down.apex ≤ change (13 / 34) (max error (1 / 5)) := by
        have hfine := ErrorTerm.isOnly_fine (le_max_right error (1 / 5))
          (max_lt hbelow (by norm_num))
        rw [change_column_of_ge hfine (by norm_num)]
        exact (pair_bounds (apex_positive_lt_adequate .fine)
          (weights_column_of_ge hfine (by norm_num))).1
      exact hupper.trans (hlower.trans
        (anti_error_below hbelow (max_lt hbelow (by norm_num)) (le_max_left _ _)))
    · exact anti_error_high habove habove' hle

/-! ## §3. The error `4/35`. -/

theorem low_degree_alike : ErrorTerm.low.ratShape.degree (4 / 35) = 1 / 7 := by
  rw [ErrorTerm.low_degree_eq (by norm_num) (by norm_num)]
  norm_num

theorem fine_degree_alike : ErrorTerm.fine.ratShape.degree (4 / 35) = 1 / 7 := by
  rw [ErrorTerm.fine_degree_rising (by norm_num) (by norm_num)]
  norm_num

theorem outlook_error_alike_short (hresidual : residual ≤ 3 / 10) :
    outlook residual (4 / 35)
      = shortAlike (min (ResidualTerm.negative.ratShape.degree residual) (1 / 7))
          (min (ResidualTerm.adequate.ratShape.degree residual) (1 / 7)) := by
  rw [outlook_short hresidual (by norm_num)]
  unfold rowPair RuleCell.strength shortAlike
  rw [low_degree_alike, fine_degree_alike]
  rfl

theorem outlook_error_alike_excess (hresidual : 3 / 10 ≤ residual) :
    outlook residual (4 / 35)
      = excessAlike (min (ResidualTerm.adequate.ratShape.degree residual) (1 / 7))
          (min (ResidualTerm.positive.ratShape.degree residual) (1 / 7)) := by
  rw [outlook_excess hresidual (by norm_num)]
  unfold rowPair RuleCell.strength excessAlike
  rw [low_degree_alike, fine_degree_alike]
  rfl

/-- Up to the end of the negative residual one of the two weights is always all that the error
allows. -/
theorem anti_residual_short : AntitoneOn (change · (4 / 35)) (Iic (3 / 10)) := by
  have hfull (r : Rat) (hr : r ≤ 3 / 10) (hfar : 1 / 4 ≤ r) :
      min (ResidualTerm.adequate.ratShape.degree r) (1 / 7) = 1 / 7 := by
    rw [ResidualTerm.adequate_degree_falling hfar (by linarith)]
    exact min_eq_right (by linarith)
  have hlimit (r : Rat) (hr : r ≤ 3 / 10) :
      min (ResidualTerm.negative.ratShape.degree r) (1 / 7) = 1 / 7
        ∨ min (ResidualTerm.adequate.ratShape.degree r) (1 / 7) = 1 / 7 := by
    -- At `1/4` the negative residual still has more than `1/7`, the adequate one has all.
    rcases le_total r (1 / 4) with hnear | hfar
    · have hless : ResidualTerm.negative.ratShape.degree (1 / 4)
          ≤ ResidualTerm.negative.ratShape.degree r :=
        Shape.falling_degree_anti (by norm_num) hnear
      rw [ResidualTerm.negative_degree_eq (by norm_num) (by norm_num)] at hless
      exact Or.inl (min_eq_right (by linarith))
    · exact Or.inr (hfull r hr hfar)
  intro residual hresidual residual' hresidual' hle
  rw [Set.mem_Iic] at hresidual hresidual'
  have hadequate : min (ResidualTerm.adequate.ratShape.degree residual) (1 / 7)
      ≤ min (ResidualTerm.adequate.ratShape.degree residual') (1 / 7) := by
    rcases le_total residual' (1 / 4) with hnear | hfar
    · exact min_le_min_right _ (Shape.triangle_degree_mono (by norm_num) (by norm_num) hle hnear)
    · rw [hfull residual' hresidual' hfar]
      exact min_le_right _ _
  unfold change
  dsimp only
  rw [outlook_error_alike_short hresidual, outlook_error_alike_short hresidual']
  exact anti_of_limited (F := fun a b => standard.centroid (shortAlike a b) (-1) 1) (c := 1 / 7)
    (fun _ _ => short_anti (by norm_num) (by norm_num))
    (fun _ _ => short_mono (by norm_num) (by norm_num))
    (le_min (Shape.degree_nonneg _ _) (by norm_num))
    (min_le_min_right _ (Shape.falling_degree_anti (by norm_num) hle)) (min_le_right _ _)
    (le_min (Shape.degree_nonneg _ _) (by norm_num)) hadequate
    (min_le_right _ _) (hlimit residual hresidual) (hlimit residual' hresidual')

/-- From there on the positive residual gains weight, until the error limits the adequate one
no more. -/
theorem anti_residual_gain : AntitoneOn (change · (4 / 35)) (Icc (3 / 10) (53 / 140)) := by
  intro residual hresidual residual' hresidual' hle
  have hfull (r : Rat) (hr : r ∈ Icc (3 / 10 : Rat) (53 / 140)) :
      min (ResidualTerm.adequate.ratShape.degree r) (1 / 7) = 1 / 7 := by
    rw [ResidualTerm.adequate_degree_falling (by linarith [hr.1]) (by linarith [hr.2])]
    exact min_eq_right (by linarith [hr.2])
  unfold change
  dsimp only
  rw [outlook_error_alike_excess hresidual.1, outlook_error_alike_excess hresidual'.1,
    hfull residual hresidual, hfull residual' hresidual']
  exact excess_anti (by norm_num) (by norm_num) (le_min (Shape.degree_nonneg _ _) (by norm_num))
    (min_le_min_right _ (Shape.rising_degree_mono (by norm_num) hle)) (min_le_right _ _)

/-- Then the adequate residual loses weight as well. -/
theorem anti_residual_exchange : AntitoneOn (change · (4 / 35)) (Icc (53 / 140) (2 / 5)) := by
  have hline (r : Rat) (hr : r ∈ Icc (53 / 140 : Rat) (2 / 5)) : outlook r (4 / 35)
      = excessAlike (8 / 3 - 20 / 3 * r) (1 / 7 - 3 / 14 * (8 / 3 - 20 / 3 * r)) := by
    obtain ⟨hlow, hhigh⟩ := hr
    rw [outlook_error_alike_excess (by linarith),
      ResidualTerm.adequate_degree_falling (by linarith) hhigh,
      ResidualTerm.positive_degree_eq (by linarith) (by linarith), min_eq_left (by linarith),
      min_eq_left (by linarith)]
    congr 1
    ring
  intro residual hresidual residual' hresidual' hle
  unfold change
  dsimp only
  rw [hline residual hresidual, hline residual' hresidual']
  exact exchange_mono (by linarith [hresidual'.2]) (by linarith) (by linarith [hresidual.1])

/-- At last only the positive residual applies, and the error limits it. -/
theorem anti_residual_end : AntitoneOn (change · (4 / 35)) (Ici (2 / 5)) := by
  have hend (r : Rat) (hr : 2 / 5 ≤ r) : outlook r (4 / 35) = excessAlike 0 (1 / 7) := by
    have hnone : ResidualTerm.adequate.ratShape.degree r = 0 :=
      Shape.triangle_degree_of_right_le (by norm_num) hr
    have hmore : ResidualTerm.positive.ratShape.degree (2 / 5)
        ≤ ResidualTerm.positive.ratShape.degree r :=
      Shape.rising_degree_mono (by norm_num) hr
    rw [ResidualTerm.positive_degree_eq (by norm_num) (by norm_num)] at hmore
    rw [outlook_error_alike_excess (by linarith), hnone, min_eq_left (by norm_num),
      min_eq_right (by linarith)]
  intro residual hresidual residual' hresidual' _
  unfold change
  dsimp only
  rw [hend residual hresidual, hend residual' hresidual']

/-- **At the error `4/35`** the change never rises with the residual. -/
theorem change_anti_residual_alike : Antitone (change · (4 / 35)) := by
  -- The pieces meet at `3/10`, where the negative residual ends, at `53/140`, where the adequate
  -- one falls below the limit of the error, and at `2/5`, where it ends.
  have hfirst := anti_residual_short.union_right anti_residual_gain isGreatest_Iic
    (isLeast_Icc (by norm_num))
  rw [Set.Iic_union_Icc_eq_Iic (by norm_num)] at hfirst
  have hsecond := hfirst.union_right anti_residual_exchange isGreatest_Iic
    (isLeast_Icc (by norm_num))
  rw [Set.Iic_union_Icc_eq_Iic (by norm_num)] at hsecond
  exact hsecond.Iic_union_Ici anti_residual_end

end CapacityControl.Control
