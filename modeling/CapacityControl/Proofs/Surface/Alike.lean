/-
  CapacityControl.Proofs.Surface.Alike
  ────────────────────────────────────
  TWO TERMS THAT APPLY ALIKE.  At the residual `13/34` and at the error `4/35` two terms share
  the coordinate and apply to it in the same degree, and these are the two lines through the
  overlaps along which the surface still follows the order of its table.  Along both of
  them it is two pairs of equal weights over each other (`shortAlike`, `excessAlike`), and
  what either pair gains lies on its own side of a point between the two.
-/
import CapacityControl.Proofs.Surface.Overlay

namespace CapacityControl.Control

open Fuzzy
open Centroid (standard)

variable {a a' b b' c s x : Rat}

/-! ## §1. Mirror images of the sets. -/

theorem DeltaTerm.up_mirror (x : Rat) : DeltaTerm.up.degree (-x) = DeltaTerm.down.degree x := by
  have hup : DeltaTerm.up.degree (-x) = _ :=
    Shape.triangle_degree_eq DeltaTerm.up.left_lt_apex DeltaTerm.up.apex_lt_right
  have hdown : DeltaTerm.down.degree x = _ :=
    Shape.triangle_degree_eq DeltaTerm.down.left_lt_apex DeltaTerm.down.apex_lt_right
  rw [hup, hdown, min_comm]
  norm_num [DeltaTerm.left, DeltaTerm.apex, DeltaTerm.right]
  ring_nf

theorem DeltaTerm.stay_mirror (x : Rat) : DeltaTerm.stay.degree (-x) = DeltaTerm.stay.degree x := by
  have hreflect := DeltaTerm.degree_reflect .stay x
  rwa [DeltaTerm.apex, mul_zero, zero_sub] at hreflect

theorem DeltaTerm.down_mirror (x : Rat) : DeltaTerm.down.degree (-x) = DeltaTerm.up.degree x := by
  rw [← DeltaTerm.up_mirror, neg_neg]

/-- A function that is symmetric about zero has no moment about zero. -/
theorem lever_eq_zero_of_even {f : Rat → Rat} (h : ∀ x, f (-x) = f x) :
    standard.lever f (-1) 1 0 = 0 := by
  have hmirror : standard.lever f (-1) 1 0 = -standard.lever f (-1) 1 (-1 + 1 - 0) :=
    Centroid.lever_mirror (fun _ _ => by rw [neg_add_cancel, zero_sub, h]) 0
  rw [neg_add_cancel, sub_zero] at hmirror
  linarith

/-! ## §2. Next to an excess. -/

/-- The two cells of the adequate residual over those of the positive one. -/
def excessAlike (a b : Rat) : Rat → Rat := overlay (pair a .up a .stay) (pair b .stay b .down)

/-- With the weights exchanged it is the mirror image. -/
theorem excessAlike_mirror (a b x : Rat) : excessAlike b a x = excessAlike a b (-1 + 1 - x) := by
  unfold excessAlike overlay pair
  rw [neg_add_cancel, zero_sub, DeltaTerm.up_mirror, DeltaTerm.stay_mirror, DeltaTerm.down_mirror]
  ring

/-- As long as the adequate residual applies more, the change is not negative. -/
theorem lever_excess_nonneg (hb0 : 0 ≤ b) (hbc : b ≤ c) (hc : c ≤ 1) :
    0 ≤ standard.lever (excessAlike c b) (-1) 1 0 := by
  have hstay : Weights b c := ⟨hb0, hbc.trans hc, hb0.trans hbc, hc⟩
  have hlower := Weights.same hb0 (hbc.trans hc)
  -- With as much of `up` as of `down` it is symmetric.
  have heven : standard.lever (overlay (pair b .up c .stay) (pair b .stay b .down)) (-1) 1 0
      = 0 := by
    refine lever_eq_zero_of_even fun x => ?_
    unfold overlay pair
    rw [DeltaTerm.up_mirror, DeltaTerm.stay_mirror, DeltaTerm.down_mirror]
    ring
  refine heven.ge.trans (Centroid.lever_le_lever (fun x hx => le_of_eq ?_) (fun x hx => ?_))
  · unfold excessAlike overlay pair
    rw [DeltaTerm.up_of_le (by linarith), mul_zero, mul_zero]
  · exact overlay_le_overlay
      (pair_le_pair hstay (.same (hb0.trans hbc) hc) hbc le_rfl x)
      (hlower.pair_le_one _ _ x)

/-- What the positive residual gains lies left of zero. -/
theorem lever_gained_excess_nonpos (hs : s ≤ 1) (hc0 : 0 ≤ c) (hc : c ≤ 1) :
    standard.lever (gainedUnder .stay .down s (pair c .up c .stay)) (-1) 1 0 ≤ 0 := by
  have heven : standard.lever (apart .stay .stay c) (-1) 1 0 = 0 := by
    refine lever_eq_zero_of_even fun x => ?_
    unfold apart
    rw [DeltaTerm.stay_mirror]
  refine (Centroid.lever_le_lever (fun x hx => ?_) (fun x hx => ?_)).trans_eq heven
  · have hgained := upper_le_gained zero_le_one hs .stay .down x
    have hrest := (Weights.same hc0 hc).pair_le_one .up .stay x
    have hpair : pair c .up c .stay x = c * DeltaTerm.stay.degree x := by
      unfold pair
      rw [DeltaTerm.up_of_le (by linarith)]
      ring
    unfold apart gainedUnder
    rw [hpair] at hrest ⊢
    exact mul_le_mul_of_nonneg_right hgained (by linarith)
  · have hgained : gained 1 .stay .down s x = DeltaTerm.stay.degree x := by
      unfold gained shared
      rw [DeltaTerm.down_of_nonneg hx.le]
      ring
    have hpair := (Weights.same hc0 hc).lower_le_pair .up .stay x
    unfold apart gainedUnder
    rw [hgained]
    exact mul_le_mul_of_nonneg_left (by linarith) (DeltaTerm.degree_nonneg _ _)

/-- **The positive residual gains weight** up to that of the adequate one. -/
theorem excess_anti (hc0 : 0 < c) (hc : c ≤ 1 / 2) (hb0 : 0 ≤ b) (hbb : b ≤ b') (hbc : b' ≤ c) :
    standard.centroid (excessAlike c b') (-1) 1 ≤ standard.centroid (excessAlike c b) (-1) 1 := by
  have harea (w : Rat) (hw0 : 0 ≤ w) (hw : w ≤ c) : 0 < standard.area (excessAlike c w) (-1) 1 :=
    area_same_left_pos hc0 (by linarith) ((Weights.same hw0 (by linarith)).pair_nonneg _ _)
  exact Centroid.centroid_ge_of_pivot (harea b hb0 (hbb.trans hbc)) (harea b' (hb0.trans hbb) hbc)
    (overlay_gains_right _ b b' .stay .down) (by linarith)
    (lever_excess_nonneg hb0 (hbb.trans hbc) (by linarith))
    (lever_gained_excess_nonpos (by linarith) hc0.le (by linarith))
    (area_gainedUnder_nonneg (by linarith) ((Weights.same hc0.le (by linarith)).pair_le_one _ _))

/-- **The adequate residual loses weight** below that of the positive one. -/
theorem excess_mono (hc0 : 0 < c) (hc : c ≤ 1 / 2) (ha0 : 0 ≤ a) (haa : a ≤ a') (hac : a' ≤ c) :
    standard.centroid (excessAlike a c) (-1) 1 ≤ standard.centroid (excessAlike a' c) (-1) 1 := by
  have harea (w : Rat) (hw0 : 0 ≤ w) (hw : w ≤ c) : 0 < standard.area (excessAlike c w) (-1) 1 :=
    area_same_left_pos hc0 (by linarith) ((Weights.same hw0 (by linarith)).pair_nonneg _ _)
  have hmirror (w : Rat) (hw0 : 0 ≤ w) (hw : w ≤ c) : standard.centroid (excessAlike w c) (-1) 1
      = -1 + 1 - standard.centroid (excessAlike c w) (-1) 1 :=
    Centroid.centroid_mirror (fun _ _ => excessAlike_mirror c w _) (harea w hw0 hw).ne'
  rw [hmirror a ha0 (haa.trans hac), hmirror a' (ha0.trans haa) hac]
  linarith [excess_anti hc0 hc ha0 haa hac]

/-! ## §3. From the one residual to the other. -/

/-- What an excess gains in total while the adequate residual gains weight and the positive one
loses some, `3/14` times as fast. -/
def exchanged (a b s s' x : Rat) : Rat :=
  gainedUnder .up .stay s (pair b .stay b .down) x
    - 3 / 14 * gainedUnder .stay .down s' (pair a .up a .stay) x

theorem excess_exchange (a a' b b' : Rat) (hline : b' - b = -3 / 14 * (a' - a)) (x : Rat) :
    excessAlike a' b' x = excessAlike a b x + (a' - a) * exchanged a b' (a + a') (b + b') x := by
  unfold excessAlike exchanged
  rw [overlay_gains_left a a', overlay_gains_right _ b b', hline]
  ring

/-- What two weights of `stay` leave of a set. -/
def besideStay (d : DeltaTerm) (a b x : Rat) : Rat :=
  apart d .stay a x * (1 - b * DeltaTerm.stay.degree x)

theorem besideStay_nonneg (ha : a ≤ 1) (hb : b ≤ 1) (d : DeltaTerm) (x : Rat) :
    0 ≤ besideStay d a b x := by
  have hrest := mul_le_one₀ hb (DeltaTerm.degree_nonneg .stay x) (DeltaTerm.degree_le_one .stay x)
  exact mul_nonneg (apart_nonneg ha x) (by linarith)

theorem besideStay_le_degree (ha0 : 0 ≤ a) (ha : a ≤ 1) (hb0 : 0 ≤ b) (d : DeltaTerm) (x : Rat) :
    besideStay d a b x ≤ d.degree x := by
  have hrest := mul_nonneg hb0 (DeltaTerm.degree_nonneg .stay x)
  exact (mul_le_of_le_one_right (apart_nonneg ha x) (by linarith)).trans (apart_le_degree ha0 x)

/-- Less of `stay` leaves more of it. -/
theorem besideStay_anti (haa : a ≤ a') (ha' : a' ≤ 1) (hbb : b ≤ b') (hb' : b' ≤ 1)
    (d : DeltaTerm) (x : Rat) : besideStay d a' b' x ≤ besideStay d a b x := by
  have hmore := mul_le_mul_of_nonneg_right hbb (DeltaTerm.degree_nonneg .stay x)
  have hrest := mul_le_one₀ hb' (DeltaTerm.degree_nonneg .stay x) (DeltaTerm.degree_le_one .stay x)
  exact mul_le_mul (apart_le_apart haa x) (by linarith) (by linarith)
    (apart_nonneg (haa.trans ha') x)

/-- Where `up` has not begun, an excess is `stay`, and what that leaves of `down`. -/
theorem excess_of_le (a b : Rat) (hx : x ≤ 1 / 20) :
    excessAlike a b x = b * besideStay .down a b x + pair a .stay b .stay x := by
  unfold excessAlike overlay pair besideStay apart
  rw [DeltaTerm.up_of_le hx]
  ring

/-- Where `down` has ended, it is `stay`, and what that leaves of `up`. -/
theorem excess_of_nonneg (a b : Rat) (hx : 0 ≤ x) :
    excessAlike a b x = a * besideStay .up a b x + pair a .stay b .stay x := by
  unfold excessAlike overlay pair besideStay apart
  rw [DeltaTerm.down_of_nonneg hx]
  ring

theorem lever_stay_nonpos (h : Weights a b) :
    standard.lever (pair a .stay b .stay) (-1) 1 (3 / 100) ≤ 0 := by
  have harea : 0 ≤ standard.area (pair a .stay b .stay) (-1) 1 :=
    Finset.sum_nonneg fun _ _ => h.pair_nonneg _ _ _
  have heven : standard.lever (pair a .stay b .stay) (-1) 1 0 = 0 := by
    refine lever_eq_zero_of_even fun x => ?_
    unfold pair
    rw [DeltaTerm.stay_mirror]
  rw [Centroid.lever_shift standard _ (-1) 1 0, heven]
  linarith

/-- The excess lies left of `3/100`. -/
theorem lever_excess_nonpos (ha0 : 0 ≤ a) (ha : a ≤ 1 / 7) (hb0 : 11 / 98 ≤ b) (hb : b ≤ 1 / 7) :
    standard.lever (excessAlike a b) (-1) 1 (3 / 100) ≤ 0 := by
  -- Of `down` at least `11/98` of what `stay` leaves when both weights are largest is there,
  -- and that alone outweighs all of `up`.
  have hdown : standard.lever (besideStay .down (1 / 7) (1 / 7)) (-1) 1 (3 / 100) ≤ -1 := by
    decide +kernel
  have hstay := lever_stay_nonpos (a := a) (b := b) ⟨ha0, by linarith, by linarith, by linarith⟩
  have hlever : standard.lever (excessAlike a b) (-1) 1 (3 / 100)
      ≤ standard.lever (fun x => (a * DeltaTerm.up.degree x
        + 11 / 98 * besideStay .down (1 / 7) (1 / 7) x) + pair a .stay b .stay x)
        (-1) 1 (3 / 100) := by
    refine Centroid.lever_le_lever (fun x hx => ?_) (fun x hx => ?_)
    · have hless := mul_le_mul hb0 (besideStay_anti ha (by norm_num) hb (by norm_num) .down x)
        (besideStay_nonneg (by norm_num) (by norm_num) .down x) (by linarith)
      rw [excess_of_le a b (by linarith), DeltaTerm.up_of_le (by linarith)]
      linarith
    · have hnone : besideStay .down (1 / 7) (1 / 7) x = 0 := by
        unfold besideStay apart
        rw [DeltaTerm.down_of_nonneg (by linarith), zero_mul, zero_mul]
      have hmore := mul_le_mul_of_nonneg_left
        (besideStay_le_degree ha0 (by linarith) (by linarith : 0 ≤ b) .up x) ha0
      rw [excess_of_nonneg a b (by linarith), hnone]
      linarith
  rw [Centroid.lever_add, Centroid.lever_add, Centroid.lever_mul, Centroid.lever_mul,
    DeltaTerm.lever_degree_at] at hlever
  norm_num [DeltaTerm.apex, DeltaTerm.mass] at hlever
  linarith

section Exchanged

variable {s' : Rat} (ha0 : 0 ≤ a) (ha : a ≤ 1 / 7) (hb0 : 0 ≤ b) (hb : b ≤ 1 / 7)

include ha0 ha hb0 hb

/-- The least that the adequate residual gains, less the most that the positive one loses. -/
theorem exchanged_ge (x : Rat) (hs : s ≤ 2 / 7) (hs0' : 0 ≤ s') (hs' : s' ≤ 2 / 7) :
    gainedUnder .up .stay (2 / 7) (pair (1 / 7) .stay (1 / 7) .down) x
        - 3 / 14 * (DeltaTerm.stay.degree x + DeltaTerm.down.degree x)
      ≤ exchanged a b s s' x := by
  have hlarge : Weights (1 / 7) (1 / 7) := .same (by norm_num) (by norm_num)
  have hgain := gainedUnder_le_gainedUnder .up .stay hs (by norm_num)
    (pair_le_pair (.same hb0 (by linarith)) hlarge hb hb x)
    (hlarge.pair_le_one .stay .down x)
  have hloss := gainedUnder_le_add .stay .down hs0' (by linarith)
    ((Weights.same ha0 (by linarith)).pair_nonneg .up .stay x)
  unfold exchanged
  linarith

/-- The most that the adequate residual gains, less the least that the positive one loses. -/
theorem exchanged_le (x : Rat) (hs0 : 0 ≤ s) (hs : s ≤ 2 / 7) (hs' : s' ≤ 2 / 7) :
    exchanged a b s s' x
      ≤ (DeltaTerm.up.degree x + DeltaTerm.stay.degree x)
        - 3 / 14 * gainedUnder .stay .down (2 / 7) (pair (1 / 7) .up (1 / 7) .stay) x := by
  have hlarge : Weights (1 / 7) (1 / 7) := .same (by norm_num) (by norm_num)
  have hloss := gainedUnder_le_gainedUnder .stay .down hs' (by norm_num)
    (pair_le_pair (.same ha0 (by linarith)) hlarge ha ha x)
    (hlarge.pair_le_one .up .stay x)
  have hgain := gainedUnder_le_add .up .stay hs0 (by linarith)
    ((Weights.same hb0 (by linarith)).pair_nonneg .stay .down x)
  unfold exchanged
  linarith

/-- What is exchanged lies right of `3/100`. -/
theorem lever_exchanged_nonneg (hs0 : 0 ≤ s) (hs : s ≤ 2 / 7) (hs0' : 0 ≤ s') (hs' : s' ≤ 2 / 7) :
    0 ≤ standard.lever (exchanged a b s s') (-1) 1 (3 / 100) := by
  have hfloor : 0 ≤ standard.lever (fun x => if x < 3 / 100
      then (DeltaTerm.up.degree x + DeltaTerm.stay.degree x)
        - 3 / 14 * gainedUnder .stay .down (2 / 7) (pair (1 / 7) .up (1 / 7) .stay) x
      else gainedUnder .up .stay (2 / 7) (pair (1 / 7) .stay (1 / 7) .down) x
        - 3 / 14 * (DeltaTerm.stay.degree x + DeltaTerm.down.degree x)) (-1) 1 (3 / 100) := by
    decide +kernel
  refine hfloor.trans (Centroid.lever_le_lever (fun x hx => ?_) (fun x hx => ?_))
  · rw [if_pos hx]
    exact exchanged_le ha0 ha hb0 hb x hs0 hs hs'
  · rw [if_neg (not_lt.mpr hx.le)]
    exact exchanged_ge ha0 ha hb0 hb x hs hs0' hs'

theorem area_exchanged_nonneg (hs : s ≤ 2 / 7) (hs0' : 0 ≤ s') (hs' : s' ≤ 2 / 7) :
    0 ≤ standard.area (exchanged a b s s') (-1) 1 := by
  -- What the adequate residual gains is at least `5/7` of `stay`, which is more than enough.
  have hfloor : 0 ≤ standard.area (fun x => 1 / 2 * DeltaTerm.stay.degree x
      + -3 / 14 * DeltaTerm.down.degree x) (-1) 1 := by
    rw [Centroid.area_add, Centroid.area_mul, Centroid.area_mul, DeltaTerm.area_degree,
      DeltaTerm.area_degree]
    norm_num [DeltaTerm.mass]
  refine hfloor.trans (Finset.sum_le_sum fun i _ => ?_)
  generalize standard.point (-1) 1 i = x
  have hlower := Weights.same hb0 (by linarith)
  have hpair := hlower.pair_le_add .stay .down x
  have hstay := mul_le_mul hb (DeltaTerm.degree_le_one .stay x) (DeltaTerm.degree_nonneg _ _)
    (by norm_num)
  have hdown := mul_le_mul hb (DeltaTerm.degree_le_one .down x) (DeltaTerm.degree_nonneg _ _)
    (by norm_num)
  have hgain := mul_le_mul (lower_le_gained (by linarith : s ≤ 1) .up .stay x)
    (by linarith : 5 / 7 ≤ 1 - pair b .stay b .down x) (by norm_num)
    ((DeltaTerm.degree_nonneg _ _).trans (lower_le_gained (by linarith) .up .stay x))
  have hloss := gainedUnder_le_add .stay .down hs0' (by linarith)
    ((Weights.same ha0 (by linarith)).pair_nonneg .up .stay x)
  unfold exchanged
  unfold gainedUnder at hloss ⊢
  linarith

end Exchanged

/-- **The adequate residual loses weight while the positive one gains some**, `3/14` times as
fast. -/
theorem exchange_mono (ha0 : 0 ≤ a) (haa : a ≤ a') (ha' : a' ≤ 1 / 7) :
    standard.centroid (excessAlike a (1 / 7 - 3 / 14 * a)) (-1) 1
      ≤ standard.centroid (excessAlike a' (1 / 7 - 3 / 14 * a')) (-1) 1 := by
  have harea (w : Rat) (hw0 : 0 ≤ w) (hw : w ≤ 1 / 7) :
      0 < standard.area (excessAlike w (1 / 7 - 3 / 14 * w)) (-1) 1 :=
    area_same_right_pos (by linarith) (by linarith)
      ((Weights.same hw0 (by linarith)).pair_nonneg _ _)
  exact Centroid.centroid_le_of_pivot (harea a ha0 (haa.trans ha')) (harea a' (ha0.trans haa) ha')
    (excess_exchange a a' _ _ (by ring)) (by linarith)
    (lever_excess_nonpos ha0 (haa.trans ha') (by linarith) (by linarith))
    (lever_exchanged_nonneg ha0 (haa.trans ha') (by linarith) (by linarith) (by linarith)
      (by linarith) (by linarith) (by linarith))
    (area_exchanged_nonneg ha0 (haa.trans ha') (by linarith) (by linarith) (by linarith)
      (by linarith) (by linarith))

/-! ## §4. Next to a shortage. -/

/-- The two cells of the negative residual over those of the adequate one. -/
def shortAlike (a b : Rat) : Rat → Rat := overlay (pair a .bigUp a .up) (pair b .up b .stay)

/-- As long as the negative residual applies more, the change lies right of `1/5`. -/
theorem lever_short_nonneg (hc0 : 0 ≤ c) (hc : c ≤ 1) (hb0 : 0 ≤ b) (hbc : b ≤ c) :
    0 ≤ standard.lever (shortAlike c b) (-1) 1 (1 / 5) := by
  have hupper := Weights.same hc0 hc
  have hlower := Weights.same hb0 (hbc.trans hc)
  have hfloor : 0 ≤ standard.lever (fun x => DeltaTerm.bigUp.degree x
      + (2 * DeltaTerm.up.degree x + DeltaTerm.stay.degree x)) (-1) 1 (1 / 5) := by
    rw [Centroid.lever_add, Centroid.lever_add, Centroid.lever_mul, DeltaTerm.lever_degree_at,
      DeltaTerm.lever_degree_at, DeltaTerm.lever_degree_at]
    norm_num [DeltaTerm.apex, DeltaTerm.mass]
  have hscaled := mul_nonneg hc0 hfloor
  rw [← Centroid.lever_mul] at hscaled
  refine hscaled.trans (Centroid.lever_le_lever (fun x hx => ?_) (fun x hx => ?_))
  · have hover := overlay_le_add (hupper.pair_nonneg .bigUp .up x)
      (hlower.pair_nonneg .up .stay x)
    have houter := hupper.pair_le_add .bigUp .up x
    have hinner := hlower.pair_le_add .up .stay x
    have hup := mul_le_mul_of_nonneg_right hbc (DeltaTerm.degree_nonneg .up x)
    have hstay := mul_le_mul_of_nonneg_right hbc (DeltaTerm.degree_nonneg .stay x)
    unfold shortAlike
    linarith
  · have hover := left_le_overlay (hupper.pair_le_one .bigUp .up x)
      (hlower.pair_nonneg .up .stay x)
    have hbigUp := hupper.upper_le_pair .bigUp .up x
    rw [DeltaTerm.up_of_ge hx.le, DeltaTerm.stay_of_ge (by linarith)]
    unfold shortAlike
    linarith

/-- What the adequate residual gains ends at `1/5`. -/
theorem lever_gained_short_nonpos {g : Rat → Rat} (hs : s ≤ 1) (hg : ∀ x, g x ≤ 1) :
    standard.lever (gainedUnder .up .stay s g) (-1) 1 (1 / 5) ≤ 0 := by
  refine Finset.sum_nonpos fun i _ => ?_
  generalize standard.point (-1) 1 i = x
  rcases le_total x (1 / 5) with hx | hx
  · have hgained := upper_le_gained zero_le_one hs .up .stay x
    exact mul_nonpos_of_nonpos_of_nonneg (by linarith)
      (mul_nonneg ((DeltaTerm.degree_nonneg _ _).trans hgained) (sub_nonneg.mpr (hg x)))
  · have hnone : gained 1 .up .stay s x = 0 := by
      unfold gained shared
      rw [DeltaTerm.up_of_ge hx, DeltaTerm.stay_of_ge (by linarith)]
      ring
    unfold gainedUnder
    rw [hnone, zero_mul, mul_zero]

/-- **The adequate residual gains weight** up to that of the negative one. -/
theorem short_anti (hc0 : 0 < c) (hc : c ≤ 1 / 2) (hb0 : 0 ≤ b) (hbb : b ≤ b') (hbc : b' ≤ c) :
    standard.centroid (shortAlike c b') (-1) 1 ≤ standard.centroid (shortAlike c b) (-1) 1 := by
  have hupper := Weights.same hc0.le (by linarith)
  have harea (w : Rat) (hw0 : 0 ≤ w) (hw : w ≤ c) : 0 < standard.area (shortAlike c w) (-1) 1 :=
    area_same_left_pos hc0 (by linarith) ((Weights.same hw0 (by linarith)).pair_nonneg _ _)
  exact Centroid.centroid_ge_of_pivot (harea b hb0 (hbb.trans hbc)) (harea b' (hb0.trans hbb) hbc)
    (overlay_gains_right _ b b' .up .stay) (by linarith)
    (lever_short_nonneg hc0.le (by linarith) hb0 (hbb.trans hbc))
    (lever_gained_short_nonpos (by linarith) (hupper.pair_le_one _ _))
    (area_gainedUnder_nonneg (by linarith) (hupper.pair_le_one _ _))

/-- As long as the adequate residual applies more, the change lies left of `12/25`. -/
theorem lever_short_nonpos (hc0 : 0 ≤ c) (hc : c ≤ 1) (ha0 : 0 ≤ a) (hac : a ≤ c) :
    standard.lever (shortAlike a c) (-1) 1 (12 / 25) ≤ 0 := by
  have hupper := Weights.same ha0 (hac.trans hc)
  have hlower := Weights.same hc0 hc
  have hlever : standard.lever (shortAlike a c) (-1) 1 (12 / 25)
      ≤ standard.lever (fun x => a * DeltaTerm.bigUp.degree x + c * DeltaTerm.stay.degree x)
        (-1) 1 (12 / 25) := by
    refine Centroid.lever_le_lever (fun x _ => ?_) (fun x hx => ?_)
    · -- `bigUp` begins where `stay` ends.
      rcases le_total x (1 / 10) with hleft | hright
      · have hover := left_le_overlay (hlower.pair_le_one .up .stay x)
          (hupper.pair_nonneg .bigUp .up x)
        rw [overlay_comm] at hover
        rw [DeltaTerm.bigUp_of_le hleft, mul_zero, zero_add]
        exact (hlower.lower_le_pair _ _ x).trans hover
      · rw [DeltaTerm.stay_of_ge hright, mul_zero, add_zero]
        exact (hupper.upper_le_pair _ _ x).trans
          (left_le_overlay (hupper.pair_le_one _ _ x) (hlower.pair_nonneg _ _ x))
    · have hover := overlay_le_add (hupper.pair_nonneg .bigUp .up x)
        (hlower.pair_nonneg .up .stay x)
      have houter := hupper.pair_le_add .bigUp .up x
      have hinner := hlower.pair_le_add .up .stay x
      rw [DeltaTerm.up_of_ge (by linarith)] at houter hinner
      unfold shortAlike
      linarith
  rw [Centroid.lever_add, Centroid.lever_mul, Centroid.lever_mul, DeltaTerm.lever_degree_at,
    DeltaTerm.lever_degree_at] at hlever
  norm_num [DeltaTerm.apex, DeltaTerm.mass] at hlever
  linarith

/-- What the negative residual gains lies right of `12/25`. -/
theorem lever_gained_short_nonneg (hs0 : 0 ≤ s) (hs : s ≤ 1) (hc0 : 0 ≤ c) (hc : c ≤ 1) :
    0 ≤ standard.lever (gainedUnder .bigUp .up s (pair c .up c .stay)) (-1) 1 (12 / 25) := by
  have hfloor : 0 ≤ standard.lever (fun x => DeltaTerm.bigUp.degree x + DeltaTerm.up.degree x)
      (-1) 1 (12 / 25) := by
    rw [Centroid.lever_add, DeltaTerm.lever_degree_at, DeltaTerm.lever_degree_at]
    norm_num [DeltaTerm.apex, DeltaTerm.mass]
  refine hfloor.trans (Centroid.lever_le_lever (fun x _ => ?_) (fun x hx => ?_))
  · exact gainedUnder_le_add _ _ hs0 hs ((Weights.same hc0 hc).pair_nonneg _ _ x)
  · unfold gainedUnder gained shared pair
    rw [DeltaTerm.up_of_ge (by linarith), DeltaTerm.stay_of_ge (by linarith)]
    linarith

/-- **The negative residual loses weight** below that of the adequate one. -/
theorem short_mono (hc0 : 0 < c) (hc : c ≤ 1 / 2) (ha0 : 0 ≤ a) (haa : a ≤ a') (hac : a' ≤ c) :
    standard.centroid (shortAlike a c) (-1) 1 ≤ standard.centroid (shortAlike a' c) (-1) 1 := by
  have hlower := Weights.same hc0.le (by linarith)
  have harea (w : Rat) (hw0 : 0 ≤ w) (hw : w ≤ c) : 0 < standard.area (shortAlike w c) (-1) 1 :=
    area_same_right_pos hc0 (by linarith) ((Weights.same hw0 (by linarith)).pair_nonneg _ _)
  exact Centroid.centroid_le_of_pivot (harea a ha0 (haa.trans hac)) (harea a' (ha0.trans haa) hac)
    (overlay_gains_left a a' .bigUp .up _) (by linarith)
    (lever_short_nonpos hc0.le (by linarith) ha0 (haa.trans hac))
    (lever_gained_short_nonneg (by linarith) (by linarith) hc0.le (by linarith))
    (area_gainedUnder_nonneg (by linarith) (hlower.pair_le_one _ _))

end CapacityControl.Control
