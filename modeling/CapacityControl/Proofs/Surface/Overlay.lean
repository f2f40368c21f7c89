/-
  CapacityControl.Proofs.Surface.Overlay
  ──────────────────────────────────────
  FOUR CHANGES AT ONCE.  Where two terms share the residual and two share the error, the
  surface is two rows of the table over each other, each of them a pair
  (`outlook_short`, `outlook_excess`).  Bounds of such an overlay in terms of the sets that
  make it up are all that is needed to tell on which side of a point it balances.
-/
import CapacityControl.Proofs.Surface.Order

namespace CapacityControl.Control

open Fuzzy
open Centroid (standard)

variable {residual error x a a' b b' s k : Rat} {f g : Rat → Rat}

/-! ## §1. Overlays. -/

/-- The algebraic sum of two blends. -/
def overlay (f g : Rat → Rat) (x : Rat) : Rat := 1 - (1 - f x) * (1 - g x)

theorem overlay_le_add (hf : 0 ≤ f x) (hg : 0 ≤ g x) : overlay f g x ≤ f x + g x := by
  have hproduct := mul_nonneg hf hg
  unfold overlay
  linarith

theorem left_le_overlay (hf : f x ≤ 1) (hg : 0 ≤ g x) : f x ≤ overlay f g x := by
  have hrest : 0 ≤ (1 - f x) * g x := mul_nonneg (by linarith) hg
  unfold overlay
  linarith

/-- With more in its left part an overlay is nowhere less. -/
theorem overlay_le_overlay {f' : Rat → Rat} (h : f x ≤ f' x) (hg : g x ≤ 1) :
    overlay f g x ≤ overlay f' g x := by
  have hless := mul_le_mul_of_nonneg_right (sub_le_sub_left h 1) (sub_nonneg.mpr hg)
  unfold overlay
  linarith

theorem overlay_comm (f g : Rat → Rat) : overlay f g = overlay g f := by
  funext x
  unfold overlay
  ring

/-- What more of the left part adds is what the right part leaves of it. -/
theorem overlay_add_left {f' m : Rat → Rat} (h : f' x = f x + k * m x) :
    overlay f' g x = overlay f g x + k * (m x * (1 - g x)) := by
  unfold overlay
  rw [h]
  ring

/-! ## §2. Pairs of equal weights over each other. -/

theorem Weights.same (h0 : 0 ≤ a) (h : a ≤ 1) : Weights a a := ⟨h0, h, h0, h⟩

section Overlays

variable {upper lower : DeltaTerm}

/-- Two sets that gain the same weight. -/
theorem pair_add_same (a a' : Rat) (upper lower : DeltaTerm) (x : Rat) :
    pair a' upper a' lower x
      = pair a upper a lower x + (a' - a) * gained 1 upper lower (a + a') x := by
  unfold pair gained shared
  ring

/-- What a pair of equal weights gains in an overlay. -/
def gainedUnder (upper lower : DeltaTerm) (s : Rat) (g : Rat → Rat) (x : Rat) : Rat :=
  gained 1 upper lower s x * (1 - g x)

theorem overlay_gains_left (a a' : Rat) (upper lower : DeltaTerm) (g : Rat → Rat) (x : Rat) :
    overlay (pair a' upper a' lower) g x
      = overlay (pair a upper a lower) g x + (a' - a) * gainedUnder upper lower (a + a') g x :=
  overlay_add_left (pair_add_same a a' upper lower x)

theorem overlay_gains_right (f : Rat → Rat) (b b' : Rat) (upper lower : DeltaTerm) (x : Rat) :
    overlay f (pair b' upper b' lower) x
      = overlay f (pair b upper b lower) x + (b' - b) * gainedUnder upper lower (b + b') f x := by
  rw [overlay_comm f, overlay_comm f]
  exact overlay_gains_left b b' upper lower f x

theorem area_gainedUnder_nonneg (hs : s ≤ 1) (hg : ∀ x, g x ≤ 1) :
    0 ≤ standard.area (gainedUnder upper lower s g) (-1) 1 :=
  Finset.sum_nonneg fun _ _ =>
    mul_nonneg ((upper.degree_nonneg _).trans (upper_le_gained zero_le_one hs _ _ _))
      (sub_nonneg.mpr (hg _))

/-- With less in common and less of the other pair, what is gained is nowhere less. -/
theorem gainedUnder_le_gainedUnder (upper lower : DeltaTerm) {s' : Rat} {g' : Rat → Rat} (hss : s ≤ s') (hs' : s' ≤ 1)
    (hgg : g x ≤ g' x) (hg' : g' x ≤ 1) :
    gainedUnder upper lower s' g' x ≤ gainedUnder upper lower s g x := by
  have hcount := mul_le_mul_of_nonneg_right hss (shared_nonneg upper lower x)
  have hgained : gained 1 upper lower s' x ≤ gained 1 upper lower s x := by
    unfold gained
    linarith
  have hnonneg := (upper.degree_nonneg x).trans (upper_le_gained zero_le_one hs' upper lower x)
  exact mul_le_mul hgained (by linarith) (by linarith) (hnonneg.trans hgained)

theorem gainedUnder_le_add (upper lower : DeltaTerm) (hs0 : 0 ≤ s) (hs : s ≤ 1) (hg : 0 ≤ g x) :
    gainedUnder upper lower s g x ≤ upper.degree x + lower.degree x := by
  have hcount := mul_nonneg hs0 (shared_nonneg upper lower x)
  have hnonneg := (upper.degree_nonneg x).trans (upper_le_gained zero_le_one hs upper lower x)
  refine (mul_le_of_le_one_right hnonneg (by linarith)).trans ?_
  unfold gained
  linarith

/-- An overlay has mass if its left part has. -/
theorem area_overlay_pos (hf : ∀ x, f x ≤ 1) (hg : ∀ x, 0 ≤ g x)
    (harea : 0 < standard.area f (-1) 1) : 0 < standard.area (overlay f g) (-1) 1 :=
  harea.trans_le (Finset.sum_le_sum fun _ _ => left_le_overlay (hf _) (hg _))

theorem area_same_left_pos (ha0 : 0 < a) (ha : a ≤ 1) (hg : ∀ x, 0 ≤ g x) :
    0 < standard.area (overlay (pair a upper a lower) g) (-1) 1 :=
  area_overlay_pos ((Weights.same ha0.le ha).pair_le_one _ _) hg
    (SomeWeights.area_pos ⟨.same ha0.le ha, by linarith⟩ _ _)

theorem area_same_right_pos (hb0 : 0 < b) (hb : b ≤ 1) (hf : ∀ x, 0 ≤ f x) :
    0 < standard.area (overlay f (pair b upper b lower)) (-1) 1 := by
  rw [overlay_comm]
  exact area_same_left_pos hb0 hb hf

end Overlays

/-! ## §3. Two rows. -/

/-- The first two cells of a row of the table. -/
def rowPair (t : ResidualTerm) (residual error : Rat) : Rat → Rat :=
  pair (RuleCell.strength residual error (t, .low)) (recommended t .low)
    (RuleCell.strength residual error (t, .fine)) (recommended t .fine)

/-- Next to a shortage the surface is the first two rows, up to the hole. -/
theorem outlook_short (hresidual : residual ≤ 3 / 10) (herror : error ≤ 3 / 10) :
    outlook residual error
      = overlay (rowPair .negative residual error) (rowPair .adequate residual error) := by
  have hpositive (u : ErrorTerm) : RuleCell.strength residual error (.positive, u) = 0 :=
    strength_eq_zero fun h => absurd h.1 (not_lt.mpr hresidual)
  have hhigh (t : ResidualTerm) : RuleCell.strength residual error (t, .high) = 0 :=
    strength_eq_zero fun h => absurd h.2 (not_lt.mpr herror)
  funext x
  simp [outlook, blend, ruleCells, ResidualTerm.all, ErrorTerm.all, hpositive, hhigh, overlay,
    rowPair, pair, RuleCell.recommended]
  ring

/-- Next to an excess the surface is the last two rows, up to the hole. -/
theorem outlook_excess (hresidual : 3 / 10 ≤ residual) (herror : error ≤ 3 / 10) :
    outlook residual error
      = overlay (rowPair .adequate residual error) (rowPair .positive residual error) := by
  have hnegative (u : ErrorTerm) : RuleCell.strength residual error (.negative, u) = 0 :=
    strength_eq_zero fun h => absurd h.1 (not_lt.mpr hresidual)
  have hhigh (t : ResidualTerm) : RuleCell.strength residual error (t, .high) = 0 :=
    strength_eq_zero fun h => absurd h.2 (not_lt.mpr herror)
  funext x
  simp [outlook, blend, ruleCells, ResidualTerm.all, ErrorTerm.all, hnegative, hhigh, overlay,
    rowPair, pair, RuleCell.recommended]
  ring

end CapacityControl.Control
