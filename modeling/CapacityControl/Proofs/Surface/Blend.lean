/-
  CapacityControl.Proofs.Surface.Blend
  ────────────────────────────────────
  THE CONTROL SURFACE, exactly.  Every cell of the rule table scales the fuzzy set that
  it recommends by its strength, and the nine scaled sets add up: their `blend` at a
  change `x` is one less the product of what each leaves of one.  Between rationals, the
  recommended change is the centroid of that blend, or undefined if no cell has any
  strength (`response_value`).
-/
import CapacityControl.Proofs.Fuzzy.Centre
import CapacityControl.Proofs.Surface.Response
import CapacityControl.Proofs.Surface.Terms
import Mathlib.Algebra.Order.BigOperators.GroupWithZero.List

namespace CapacityControl.Control

open Fuzzy
open Extended (finite)

/-! ## §1. The strength of a cell. -/

/-- The degree to which a cell applies to a residual and an error. -/
def RuleCell.strength (residual error : Rat) (cell : RuleCell) : Rat :=
  min (cell.1.ratShape.degree residual) (cell.2.ratShape.degree error)

theorem RuleCell.strength_nonneg (residual error : Rat) (cell : RuleCell) :
    0 ≤ cell.strength residual error :=
  le_min (Shape.degree_nonneg _ _) (Shape.degree_nonneg _ _)

theorem RuleCell.strength_le_one (residual error : Rat) (cell : RuleCell) :
    cell.strength residual error ≤ 1 :=
  (min_le_left _ _).trans (Shape.degree_le_one _ _)

/-- A cell applies where both of its terms do. -/
theorem RuleCell.strength_pos_iff (residual error : Rat) (cell : RuleCell) :
    0 < cell.strength residual error ↔ cell.1.reaches residual ∧ cell.2.reaches error := by
  unfold strength
  rw [lt_min_iff, ResidualTerm.degree_pos_iff, ErrorTerm.degree_pos_iff]

theorem RuleCell.strength_ne_zero_iff (residual error : Rat) (cell : RuleCell) :
    cell.strength residual error ≠ 0 ↔ cell.1.reaches residual ∧ cell.2.reaches error := by
  rw [← strength_pos_iff]
  exact (strength_nonneg residual error cell).lt_iff_ne'.symm

theorem RuleCell.degree_finite (residual error : Rat) (cell : RuleCell) :
    cell.degree (finite residual) (finite error) = finite (cell.strength residual error) := by
  unfold RuleCell.degree RuleCell.strength TNorm.apply
  rw [ResidualTerm.shape_eq, ErrorTerm.shape_eq, Shape.membership_finite,
    Shape.membership_finite]
  simp

/-! ## §2. Blends. -/

/-- **The blend** of the recommended sets, each scaled by the weight of its cell. -/
def blend (w : RuleCell → Rat) (x : Rat) : Rat :=
  1 - (ruleCells.map fun cell => 1 - w cell * cell.recommended.degree x).prod

section Blend

variable {v w : RuleCell → Rat} {x : Rat}

/-- Scaled by a weight of the unit interval, a set leaves something of one. -/
theorem rest_nonneg (hw : ∀ cell, w cell ≤ 1) (cell : RuleCell) (x : Rat) :
    0 ≤ 1 - w cell * cell.recommended.degree x := by
  have hmul : w cell * cell.recommended.degree x ≤ 1 :=
    mul_le_one₀ (hw cell) (DeltaTerm.degree_nonneg _ _) (DeltaTerm.degree_le_one _ _)
  linarith

/-- Larger weights blend to more. -/
theorem blend_mono (hw : ∀ cell, w cell ≤ 1)
    (h : ∀ cell, v cell * cell.recommended.degree x ≤ w cell * cell.recommended.degree x) :
    blend v x ≤ blend w x := by
  unfold blend
  -- Of larger weights every factor of the product is smaller, and none is negative.
  have hprod := List.prod_map_le_prod_map₀ (s := ruleCells)
    (fun cell => 1 - w cell * cell.recommended.degree x)
    (fun cell => 1 - v cell * cell.recommended.degree x)
    (fun cell _ => rest_nonneg hw cell x) (fun cell _ => by linarith [h cell])
  linarith

theorem blend_congr
    (h : ∀ cell, v cell * cell.recommended.degree x = w cell * cell.recommended.degree x) :
    blend v x = blend w x := by
  unfold blend
  congr 2
  exact List.map_congr_left fun cell _ => by rw [h cell]

theorem blend_zero (x : Rat) : blend (fun _ => 0) x = 0 := by
  simp [blend]

theorem blend_nonneg (h0 : ∀ cell, 0 ≤ w cell) (h1 : ∀ cell, w cell ≤ 1) (x : Rat) :
    0 ≤ blend w x := by
  rw [← blend_zero x]
  refine blend_mono h1 fun cell => ?_
  rw [zero_mul]
  exact mul_nonneg (h0 cell) (DeltaTerm.degree_nonneg _ _)

/-- Where no set with any weight reaches, the blend is zero. -/
theorem blend_eq_zero (h : ∀ cell, w cell * cell.recommended.degree x = 0) : blend w x = 0 := by
  rw [← blend_zero x]
  exact blend_congr fun cell => by rw [h cell, zero_mul]

/-- A product of factors of the unit interval is at most each of its factors. -/
theorem prod_le_factor {β : Type} (f : β → Rat) (h0 : ∀ b, 0 ≤ f b) (h1 : ∀ b, f b ≤ 1)
    {b : β} {l : List β} (hmem : b ∈ l) : (l.map f).prod ≤ f b := by
  induction l with
  | nil => cases hmem
  | cons c l ih =>
    rw [List.map_cons, List.prod_cons]
    rcases List.mem_cons.mp hmem with rfl | htail
    · have hle := List.prod_map_le_prod_map₀ (s := l) f (fun _ => 1) (fun a _ => h0 a)
        (fun a _ => h1 a)
      rw [List.map_const', List.prod_replicate, one_pow] at hle
      exact mul_le_of_le_one_right (h0 b) hle
    · have hrest : 0 ≤ (l.map f).prod := by
        refine List.prod_nonneg fun a ha => ?_
        obtain ⟨c, _, rfl⟩ := List.mem_map.mp ha
        exact h0 c
      exact (mul_le_of_le_one_left hrest (h1 c)).trans (ih htail)

/-- A blend is at least each of the scaled sets. -/
theorem le_blend (h0 : ∀ cell, 0 ≤ w cell) (h1 : ∀ cell, w cell ≤ 1) (cell : RuleCell) :
    w cell * cell.recommended.degree x ≤ blend w x := by
  have hle := prod_le_factor (fun cell => 1 - w cell * cell.recommended.degree x)
    (fun cell => rest_nonneg h1 cell x)
    (fun cell => by linarith [mul_nonneg (h0 cell) (DeltaTerm.degree_nonneg cell.recommended x)])
    (mem_ruleCells cell)
  unfold blend
  linarith

end Blend

/-! ## §3. The response. -/

/-- How much of each change the rule base recommends for a residual and an error. -/
def outlook (residual error : Rat) : Rat → Rat := blend (RuleCell.strength residual error)

/-- The change that the rule base comes to. -/
def change (residual error : Rat) : Rat :=
  Centroid.standard.centroid (outlook residual error) (-1) 1

theorem activation?_finite (residual error : Rat) (cell : RuleCell) :
    cell.activation? (finite residual) (finite error)
      = if 0 < cell.strength residual error then
          some ⟨DeltaTerm.all.idxOf cell.recommended, finite (cell.strength residual error),
            .algebraicProduct⟩
        else none := by
  unfold RuleCell.activation?
  rw [RuleCell.degree_finite]
  simp

/-- Folding the algebraic sum over activations leaves what all of them leave of the rest.
Cells without strength do not take part, and would not change anything. -/
theorem foldl_algebraicSum (r : Resource) (residual error x rest : Rat) (l : List RuleCell) :
    (l.filterMap (RuleCell.activation? (finite residual) (finite error))).foldl
        (fun degree a => SNorm.algebraicSum.apply degree
          (Output.impliedMembership (deltaOutput r : Output Extended).terms (finite x) a))
        (finite (1 - rest))
      = finite (1 - rest * (l.map fun cell =>
          1 - cell.strength residual error * cell.recommended.degree x).prod) := by
  induction l generalizing rest with
  | nil => simp
  | cons cell l ih =>
    rw [List.filterMap_cons, activation?_finite, List.map_cons, List.prod_cons]
    -- A cell that fires takes its part of the rest; one that does not has the factor one.
    by_cases hpos : 0 < cell.strength residual error
    · have hhead : SNorm.algebraicSum.apply (finite (1 - rest))
          (Output.impliedMembership (deltaOutput r : Output Extended).terms (finite x)
            ⟨DeltaTerm.all.idxOf cell.recommended, finite (cell.strength residual error),
              .algebraicProduct⟩)
          = finite (1 - rest * (1 - cell.strength residual error * cell.recommended.degree x)) := by
        simp only [Output.impliedMembership, SNorm.apply, TNorm.apply,
          DeltaTerm.membershipAt_finite, Extended.finite_mul, Extended.finite_add,
          Extended.finite_sub]
        congr 1
        ring
      rw [if_pos hpos, List.foldl_cons, hhead, ih, mul_assoc]
    · have hzero : cell.strength residual error = 0 :=
        le_antisymm (not_lt.mp hpos) (RuleCell.strength_nonneg _ _ _)
      rw [if_neg hpos, hzero, zero_mul, sub_zero, one_mul]
      exact ih rest

theorem aggregated_response (r : Resource) (residual error x : Rat) :
    (response r (finite residual) (finite error)).aggregated (finite x)
      = finite (outlook residual error x) := by
  have hfold := foldl_algebraicSum r residual error x 1 ruleCells
  rw [sub_self, one_mul] at hfold
  show List.foldl _ (0.0 : Extended) _ = _
  rw [Extended.ofScientific_eq, Nat.cast_zero, zero_div]
  exact hfold

theorem isActivated_response (r : Resource) (residual error : Rat) :
    (response r (finite residual) (finite error)).isActivated = false
      ↔ ∀ cell, RuleCell.strength residual error cell = 0 := by
  show (!(ruleCells.filterMap _).isEmpty) = false ↔ _
  rw [Bool.not_eq_false', List.isEmpty_iff, List.filterMap_eq_nil_iff]
  constructor
  · intro h cell
    have hnone := h cell (mem_ruleCells cell)
    rw [activation?_finite] at hnone
    by_contra hne
    have hpos := lt_of_le_of_ne (RuleCell.strength_nonneg residual error cell) (Ne.symm hne)
    rw [if_pos hpos] at hnone
    cases hnone
  · intro h cell _
    rw [activation?_finite, if_neg (by rw [h cell]; exact lt_irrefl 0)]

/-- Without a cell of any strength there is no change to report. -/
theorem response_value_of_silent {residual error : Rat}
    (hsilent : ∀ cell, RuleCell.strength residual error cell = 0) (r : Resource) :
    (response r (finite residual) (finite error)).value = .nan := by
  have hinactive := (isActivated_response r residual error).mpr hsilent
  unfold Output.isActivated at hinactive
  rw [Bool.not_eq_false'] at hinactive
  exact if_pos hinactive

/-- **The response between rationals** is the centroid of the blend, once that has mass. -/
theorem response_value {residual error : Rat}
    (harea : 0 < Centroid.standard.area (outlook residual error) (-1) 1) (r : Resource) :
    (response r (finite residual) (finite error)).value = finite (change residual error) := by
  have hactive : (response r (finite residual) (finite error)).isActivated ≠ false := by
    intro hinactive
    have hsilent := (isActivated_response r residual error).mp hinactive
    have hzero : ∀ x, outlook residual error x = 0 := fun x =>
      blend_eq_zero fun cell => by rw [hsilent cell, zero_mul]
    simp [Centroid.area, hzero] at harea
  unfold Output.isActivated at hactive
  rw [Ne, Bool.not_eq_false'] at hactive
  have hcentre := Centroid.standard.centre_finite
    (fun x => aggregated_response r residual error x) (-1) 1
  rw [if_neg harea.ne'] at hcentre
  have hrange : (response r (finite residual) (finite error)).value
      = Centroid.standard.centre (response r (finite residual) (finite error)).aggregated
          (-1.0) 1.0 := if_neg hactive
  rw [hrange]
  norm_num
  exact hcentre

end CapacityControl.Control
