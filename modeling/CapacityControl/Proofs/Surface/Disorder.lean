/-
  CapacityControl.Proofs.Surface.Disorder
  ───────────────────────────────────────
  WHERE THE SURFACE BREAKS THE ORDER OF ITS TABLE.  Where two terms share a coordinate, a
  cell of the lower one may be limited by its term while the cell of the upper one goes on
  gaining weight, so that the change rises although every cell of the table goes down.
  This happens somewhere along every residual and every error that two terms share, two
  isolated values apart.
-/
import CapacityControl.Proofs.Surface.Overlay

namespace CapacityControl.Control

open Fuzzy
open Extended (finite)
open Centroid (standard)

variable {residual error : Rat}

/-! ## §1. Along a residual. -/

/-- The change rises somewhere with the error. -/
def RisesWithError (residual : Rat) : Prop :=
  ∃ error error', error ≤ error' ∧ error ≠ 3 / 10 ∧ error' ≠ 3 / 10
    ∧ change residual error < change residual error'

/-- Two terms share a residual, and only their cells of a column apply. -/
structure Shares (upper lower : ResidualTerm) (residual : Rat) : Prop where
  change_eq : ∀ {u : ErrorTerm} {error : Rat}, u.IsOnly error →
    change residual error
      = pairChange (RuleCell.strength residual error (upper, u)) (recommended upper u)
          (RuleCell.strength residual error (lower, u)) (recommended lower u)
  apex_lt : ∀ u, (recommended lower u).apex < (recommended upper u).apex

theorem shares_short (hresidual : residual ≤ 3 / 10) : Shares .negative .adequate residual :=
  ⟨fun hu => change_column_of_le hu hresidual, apex_adequate_lt_negative⟩

theorem shares_excess (hresidual : 3 / 10 ≤ residual) : Shares .adequate .positive residual :=
  ⟨fun hu => change_column_of_ge hu hresidual, apex_positive_lt_adequate⟩

section Shares

variable {upper lower : ResidualTerm} (h : Shares upper lower residual)

include h

/-- **The upper term applies more**: beyond the hole its cell goes on gaining weight when that
of the lower term has all that its term allows. -/
theorem rises_of_lower_lt (hpos : 0 < lower.ratShape.degree residual)
    (hlt : lower.ratShape.degree residual < upper.ratShape.degree residual) :
    RisesWithError residual := by
  have hone : upper.ratShape.degree residual ≤ 1 := Shape.degree_le_one _ _
  generalize hw : lower.ratShape.degree residual = w at hpos hlt
  generalize hv : upper.ratShape.degree residual = v at hlt hone
  -- From the error that applies as much as the lower term does, to the one that applies in full.
  have hdegree : ErrorTerm.high.ratShape.degree (3 / 10 + 7 / 10 * w) = w := by
    rw [ErrorTerm.high_degree_eq (by linarith) (by linarith)]
    ring
  have hend : ErrorTerm.high.ratShape.degree 1 = 1 := by
    rw [ErrorTerm.high_degree_eq (by norm_num) le_rfl]
    norm_num
  refine ⟨3 / 10 + 7 / 10 * w, 1, by linarith, by linarith, by norm_num, ?_⟩
  rw [h.change_eq (ErrorTerm.isOnly_high (by linarith)),
    h.change_eq (ErrorTerm.isOnly_high (by norm_num))]
  unfold RuleCell.strength
  rw [hdegree, hend, hw, hv, min_eq_right hlt.le, min_self, min_eq_left hone,
    min_eq_left (hlt.le.trans hone)]
  exact pair_lt_of_upper (h.apex_lt .high)
    ⟨⟨hpos.le, by linarith, hpos.le, by linarith⟩, by linarith⟩ hpos hpos hlt hone

/-- **The lower term applies more**: on the way to the hole its cell loses weight while that
of the upper term keeps all that its term allows. -/
theorem rises_of_upper_lt (hpos : 0 < upper.ratShape.degree residual)
    (hlt : upper.ratShape.degree residual < lower.ratShape.degree residual) :
    RisesWithError residual := by
  have hone : lower.ratShape.degree residual ≤ 1 := Shape.degree_le_one _ _
  generalize hw : lower.ratShape.degree residual = w at hlt hone
  generalize hv : upper.ratShape.degree residual = v at hpos hlt
  -- From the error that applies in full to the one that applies as much as the upper term does.
  have hbegin : ErrorTerm.fine.ratShape.degree (1 / 5) = 1 := by
    rw [ErrorTerm.fine_degree_falling le_rfl (by norm_num)]
    norm_num
  have hdegree : ErrorTerm.fine.ratShape.degree (3 / 10 - 1 / 10 * v) = v := by
    rw [ErrorTerm.fine_degree_falling (by linarith) (by linarith)]
    ring
  refine ⟨1 / 5, 3 / 10 - 1 / 10 * v, by linarith, by norm_num, by linarith, ?_⟩
  rw [h.change_eq (ErrorTerm.isOnly_fine le_rfl (by norm_num)),
    h.change_eq (ErrorTerm.isOnly_fine (by linarith) (by linarith))]
  unfold RuleCell.strength
  rw [hbegin, hdegree, hw, hv, min_eq_left hone, min_eq_left (hlt.le.trans hone), min_self,
    min_eq_right hlt.le]
  exact pair_lt_of_lower (h.apex_lt .fine)
    ⟨⟨hpos.le, by linarith, hpos.le, by linarith⟩, by linarith⟩ hpos hpos hlt hone

end Shares

/-- Where the negative and the adequate residual apply alike, what their fine cells have in
common grows with their weights, and it lies at the upper end. -/
theorem rises_sixth : RisesWithError (1 / 6) := by
  have hnegative : ResidualTerm.negative.ratShape.degree (1 / 6) = 4 / 9 := by
    rw [ResidualTerm.negative_degree_eq (by norm_num) (by norm_num)]
    norm_num
  have hadequate : ResidualTerm.adequate.ratShape.degree (1 / 6) = 4 / 9 := by
    rw [ResidualTerm.adequate_degree_rising (by norm_num) (by norm_num)]
    norm_num
  have hbegin : ErrorTerm.fine.ratShape.degree (1 / 5) = 1 := by
    rw [ErrorTerm.fine_degree_falling le_rfl (by norm_num)]
    norm_num
  have hlater : ErrorTerm.fine.ratShape.degree (5 / 18) = 2 / 9 := by
    rw [ErrorTerm.fine_degree_falling (by norm_num) (by norm_num)]
    norm_num
  refine ⟨1 / 5, 5 / 18, by norm_num, by norm_num, by norm_num, ?_⟩
  rw [(shares_short (by norm_num)).change_eq (ErrorTerm.isOnly_fine le_rfl (by norm_num)),
    (shares_short (by norm_num)).change_eq (ErrorTerm.isOnly_fine (by norm_num) (by norm_num))]
  unfold RuleCell.strength
  rw [hnegative, hadequate, hbegin, hlater, min_eq_left (by norm_num), min_eq_right (by norm_num)]
  exact up_stay_anti (by norm_num) (by norm_num) (by norm_num)

/-- **A residual that two terms share** lets the change rise somewhere with the error, unless
both terms apply alike at `13/34`. -/
theorem rises_with_error (hlow : 1 / 10 < residual) (hhigh : residual < 2 / 5)
    (hmiddle : residual ≠ 3 / 10) (hpoint : residual ≠ 13 / 34) : RisesWithError residual := by
  rcases lt_or_gt_of_ne hmiddle with hshort | hexcess
  · have hshares := shares_short hshort.le
    have hnegative := ResidualTerm.negative_degree_eq (by linarith) hshort.le
    rcases lt_trichotomy residual (1 / 6) with hless | rfl | hmore
    · have hadequate := ResidualTerm.adequate_degree_rising hlow.le (by linarith)
      exact rises_of_lower_lt hshares (by linarith) (by linarith)
    · exact rises_sixth
    · refine rises_of_upper_lt hshares (by linarith) ?_
      rcases le_or_gt residual (1 / 4) with hrise | hfall
      · rw [hnegative, ResidualTerm.adequate_degree_rising hlow.le hrise]
        linarith
      · rw [hnegative, ResidualTerm.adequate_degree_falling hfall.le hhigh.le]
        linarith
  · have hshares := shares_excess hexcess.le
    have hadequate := ResidualTerm.adequate_degree_falling (by linarith) hhigh.le
    have hpositive := ResidualTerm.positive_degree_eq hexcess.le (by linarith)
    rcases lt_or_gt_of_ne hpoint with hless | hmore
    · exact rises_of_lower_lt hshares (by linarith) (by linarith)
    · exact rises_of_upper_lt hshares (by linarith) (by linarith)

/-! ## §2. Along an error. -/

/-- The change rises somewhere with the residual. -/
def RisesWithResidual (error : Rat) : Prop :=
  ∃ residual residual', residual ≤ residual' ∧ change residual error < change residual' error

/-- Both terms that share an error between `1/10` and `1/5` apply on a line. -/
theorem shared_error_degrees (hlow : 1 / 10 < error) (hhigh : error < 1 / 5) :
    ErrorTerm.low.ratShape.degree error = 1 / 3 - 5 / 3 * error
      ∧ ErrorTerm.fine.ratShape.degree error = 10 * error - 1 :=
  ⟨ErrorTerm.low_degree_eq (by linarith) hhigh.le, ErrorTerm.fine_degree_rising hlow.le hhigh.le⟩

/-- Where the low error applies more, the cell that stays goes on gaining weight with the
excess when the one that goes down has all that the error allows. -/
theorem rises_excess (hlow : 1 / 10 < error) (hhigh : error < 4 / 35) :
    RisesWithResidual error := by
  obtain ⟨hl, hf⟩ := shared_error_degrees hlow (by linarith)
  have hbegin : ResidualTerm.positive.ratShape.degree (2 / 5) = 1 / 7 := by
    rw [ResidualTerm.positive_degree_eq (by norm_num) (by norm_num)]
    norm_num
  have hend : ResidualTerm.positive.ratShape.degree 1 = 1 := by
    rw [ResidualTerm.positive_degree_eq (by norm_num) le_rfl]
    norm_num
  refine ⟨2 / 5, 1, by norm_num, ?_⟩
  rw [change_row_of_lt (ResidualTerm.isOnly_positive le_rfl) (by linarith),
    change_row_of_lt (ResidualTerm.isOnly_positive (by norm_num)) (by linarith)]
  unfold RuleCell.strength
  rw [hbegin, hend, hl, hf, min_eq_left (by linarith), min_eq_right (by linarith),
    min_eq_right (by linarith), min_eq_right (by linarith)]
  exact pair_lt_of_upper (apex_fine_lt_low .positive)
    ⟨⟨by norm_num, by norm_num, by linarith, by linarith⟩, by linarith⟩
    (by linarith) (by norm_num) (by linarith) (by linarith)

/-- Where the fine error applies much more, its cell loses weight with the shortage while that
of the low error has all that the error allows. -/
theorem rises_shortage (hlow : 1 / 6 < error) (hhigh : error < 1 / 5) :
    RisesWithResidual error := by
  obtain ⟨hl, hf⟩ := shared_error_degrees (by linarith) hhigh
  have hbegin : ResidualTerm.negative.ratShape.degree 0 = 1 := by
    rw [ResidualTerm.negative_degree_eq le_rfl (by norm_num)]
    norm_num
  have hend : ResidualTerm.negative.ratShape.degree (1 / 10) = 2 / 3 := by
    rw [ResidualTerm.negative_degree_eq (by norm_num) (by norm_num)]
    norm_num
  refine ⟨0, 1 / 10, by norm_num, ?_⟩
  rw [change_row_of_lt (ResidualTerm.isOnly_negative (by norm_num)) (by linarith),
    change_row_of_lt (ResidualTerm.isOnly_negative le_rfl) (by linarith)]
  unfold RuleCell.strength
  rw [hbegin, hend, hl, hf, min_eq_right (by linarith), min_eq_right (by linarith),
    min_eq_right (by linarith), min_eq_left (by linarith)]
  exact pair_lt_of_lower (apex_fine_lt_low .negative)
    ⟨⟨by linarith, by linarith, by norm_num, by norm_num⟩, by linarith⟩
    (by linarith) (by norm_num) (by linarith) (by linarith)

/-- The part of a set to the left of a point. -/
def before (p : Rat) (d : DeltaTerm) (x : Rat) : Rat := if x < p then d.degree x else 0

/-- What the surface is between the apex of the adequate residual and the end of the negative
one, where the fine error limits neither of its cells. -/
def middle (l k f : Rat) : Rat → Rat := overlay (pair l .bigUp k .up) (pair l .up f .stay)

/-- The low error applies less than the fine one, though not by much. -/
structure Mixed (l f : Rat) : Prop where
  low_ge : 1 / 18 ≤ l
  low_lt : l < 1 / 7
  fine_gt : 1 / 7 < f
  fine_le : f ≤ 2 / 3

/-- What more of the upper fine cell adds. -/
def gap (l f x : Rat) : Rat := apart .up .bigUp l x * (1 - pair l .up f .stay x)

namespace Mixed

variable {l f : Rat} (h : Mixed l f)

include h

/-- Where both residuals apply enough, what limits the cells is the error, up to one. -/
theorem outlook_eq (hresidual : residual ≤ 3 / 10) (herror : error ≤ 3 / 10)
    (hlow : ErrorTerm.low.ratShape.degree error = l)
    (hfine : ErrorTerm.fine.ratShape.degree error = f)
    (hnegative : 1 / 7 ≤ ResidualTerm.negative.ratShape.degree residual)
    (hadequate : 2 / 3 ≤ ResidualTerm.adequate.ratShape.degree residual) :
    outlook residual error
      = middle l (min (ResidualTerm.negative.ratShape.degree residual) f) f := by
  have hupper : min (ResidualTerm.negative.ratShape.degree residual) l = l :=
    min_eq_right (h.low_lt.le.trans hnegative)
  have hlower : min (ResidualTerm.adequate.ratShape.degree residual) l = l :=
    min_eq_right (by linarith [h.low_lt])
  have hstay : min (ResidualTerm.adequate.ratShape.degree residual) f = f :=
    min_eq_right (h.fine_le.trans hadequate)
  rw [outlook_short hresidual herror]
  unfold rowPair RuleCell.strength
  rw [hlow, hfine, hupper, hlower, hstay]
  rfl

theorem inner : Weights l f :=
  ⟨by linarith [h.low_ge], by linarith [h.low_lt], by linarith [h.fine_gt], by linarith [h.fine_le]⟩

theorem outer {k : Rat} (hk0 : 0 ≤ k) (hk : k ≤ 1) : Weights l k :=
  ⟨by linarith [h.low_ge], by linarith [h.low_lt], hk0, hk⟩

/-- With little of the fine cell the surface lies right of `27/200`. -/
theorem lever_middle_pos : 0 < standard.lever (middle l (1 / 7) f) (-1) 1 (27 / 200) := by
  have hweights := h.outer (k := 1 / 7) (by norm_num) (by norm_num)
  have hup : -1 / 7 ≤ standard.lever (before (27 / 200) .up) (-1) 1 (27 / 200) := by decide +kernel
  have hlever : standard.lever (fun x => (l * DeltaTerm.bigUp.degree x
        + f * DeltaTerm.stay.degree x) + 2 / 7 * before (27 / 200) .up x) (-1) 1 (27 / 200)
      ≤ standard.lever (middle l (1 / 7) f) (-1) 1 (27 / 200) := by
    refine Centroid.lever_le_lever (fun x hx => ?_) (fun x hx => ?_)
    · have hover := overlay_le_add (hweights.pair_nonneg .bigUp .up x)
        (h.inner.pair_nonneg .up .stay x)
      have houter := hweights.pair_le_add .bigUp .up x
      have hinner := h.inner.pair_le_add .up .stay x
      have hup : l * DeltaTerm.up.degree x ≤ 1 / 7 * DeltaTerm.up.degree x :=
        mul_le_mul_of_nonneg_right h.low_lt.le (DeltaTerm.degree_nonneg _ _)
      unfold middle before
      rw [if_pos hx]
      linarith
    · have hover := left_le_overlay (hweights.pair_le_one .bigUp .up x)
        (h.inner.pair_nonneg .up .stay x)
      have hupper := hweights.upper_le_pair .bigUp .up x
      unfold middle before
      rw [if_neg (not_lt.mpr hx.le), DeltaTerm.stay_of_ge (by linarith)]
      linarith
  rw [Centroid.lever_add, Centroid.lever_add, Centroid.lever_mul, Centroid.lever_mul,
    Centroid.lever_mul, DeltaTerm.lever_degree_at, DeltaTerm.lever_degree_at] at hlever
  norm_num [DeltaTerm.apex, DeltaTerm.mass] at hlever
  linarith [h.low_ge, h.fine_le]

theorem area_gap_nonneg : 0 ≤ standard.area (gap l f) (-1) 1 :=
  Finset.sum_nonneg fun _ _ => mul_nonneg (apart_nonneg h.inner.upper_le _)
    (sub_nonneg.mpr (h.inner.pair_le_one _ _ _))

/-- What more of the fine cell adds lies left of `27/200`. -/
theorem lever_gap_neg : standard.lever (gap l f) (-1) 1 (27 / 200) < 0 := by
  have hfloor : standard.lever (fun x => if x < 27 / 200
      then apart .up .bigUp (1 / 7) x * (1 - pair (1 / 7) .up (2 / 3) .stay x)
      else DeltaTerm.up.degree x) (-1) 1 (27 / 200) < 0 := by decide +kernel
  have hlarge : Weights (1 / 7) (2 / 3) :=
    ⟨by norm_num, by norm_num, by norm_num, by norm_num⟩
  refine (standard.lever_le_lever (fun x hx => ?_) (fun x hx => ?_)).trans_lt hfloor
  · have hpair : pair l .up f .stay x ≤ pair (1 / 7) .up (2 / 3) .stay x :=
      pair_le_pair h.inner hlarge h.low_lt.le h.fine_le x
    have hone := hlarge.pair_le_one .up .stay x
    rw [if_pos hx]
    exact mul_le_mul (apart_le_apart h.low_lt.le x) (by linarith) (by linarith)
      (apart_nonneg h.inner.upper_le x)
  · rw [if_neg (not_lt.mpr hx.le)]
    have hpair := h.inner.pair_nonneg .up .stay x
    exact (mul_le_of_le_one_right (apart_nonneg h.inner.upper_le x) (by linarith)).trans
      (apart_le_degree h.inner.upper_nonneg x)

end Mixed

/-- Where the fine error applies more than the low one, though not by much, its upper cell
loses weight with the shortage and pulls the change down as long as it has some. -/
theorem rises_middle (hlow : 4 / 35 < error) (hhigh : error ≤ 1 / 6) :
    RisesWithResidual error := by
  have hnegative : ResidualTerm.negative.ratShape.degree (1 / 5) = 1 / 3 := by
    rw [ResidualTerm.negative_degree_eq (by norm_num) (by norm_num)]
    norm_num
  have hnegative' : ResidualTerm.negative.ratShape.degree (9 / 35) = 1 / 7 := by
    rw [ResidualTerm.negative_degree_eq (by norm_num) (by norm_num)]
    norm_num
  obtain ⟨hl, hf⟩ := shared_error_degrees (by linarith : 1 / 10 < error) (by linarith)
  generalize hl' : ErrorTerm.low.ratShape.degree error = l at hl
  generalize hf' : ErrorTerm.fine.ratShape.degree error = f at hf
  have hmixed : Mixed l f := ⟨by linarith, by linarith, by linarith, by linarith⟩
  have hbegin : outlook (1 / 5) error = middle l (min (1 / 3) f) f := by
    rw [← hnegative]
    refine hmixed.outlook_eq (by norm_num) (by linarith) hl' hf' ?_ ?_
    · rw [hnegative]
      norm_num
    · rw [ResidualTerm.adequate_degree_rising (by norm_num) (by norm_num)]
      norm_num
  have hend : outlook (9 / 35) error = middle l (1 / 7) f := by
    rw [← min_eq_left hmixed.fine_gt.le, ← hnegative']
    refine hmixed.outlook_eq (by norm_num) (by linarith) hl' hf' hnegative'.ge ?_
    rw [ResidualTerm.adequate_degree_falling (by norm_num) (by norm_num)]
    norm_num
  have harea := area_outlook_pos (1 / 5) (by linarith : error ≠ 3 / 10)
  have harea' := area_outlook_pos (9 / 35) (by linarith : error ≠ 3 / 10)
  refine ⟨1 / 5, 9 / 35, by norm_num, ?_⟩
  unfold change
  rw [hbegin] at harea ⊢
  rw [hend] at harea' ⊢
  -- What the cell adds pulls to the left of `27/200`, and the rest lies to the right of it.
  exact Centroid.centroid_gt_of_pivot harea' harea
    (fun x => overlay_add_left (pair_add_lower l .bigUp (1 / 7) (min (1 / 3) f) .up x))
    (sub_pos.mpr (lt_min (by norm_num) hmixed.fine_gt)) hmixed.lever_middle_pos.le
    hmixed.lever_gap_neg hmixed.area_gap_nonneg

/-- **An error that two terms share** lets the change rise somewhere with the residual, unless
both terms apply alike at `4/35`. -/
theorem rises_with_residual (hlow : 1 / 10 < error) (hhigh : error < 1 / 5)
    (hpoint : error ≠ 4 / 35) : RisesWithResidual error := by
  rcases lt_or_gt_of_ne hpoint with hless | hmore
  · exact rises_excess hlow hless
  · rcases le_or_gt error (1 / 6) with hmiddle | hlarge
    · exact rises_middle hmore hmiddle
    · exact rises_shortage hlarge hhigh

end CapacityControl.Control
