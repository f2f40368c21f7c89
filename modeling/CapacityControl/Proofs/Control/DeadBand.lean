/-
  CapacityControl.Proofs.Control.DeadBand
  ───────────────────────────────────────
  WHAT A CHANGE DOES TO A SHARE, exactly.  The share moves to the sum with the change,
  limited to `[0, 1]`, unless that is within tolerance of the share.  The tolerance grows
  with the sum, and still the sums within it make up an interval around the share
  (`within_of_mem_uIcc`): a sum outside is on its own side of the share, further away than
  all those inside.  So the greater change leaves the greater share (`changed_mono`), and
  what is held back is never more than the tolerance (`share_follows_change`).
-/
import CapacityControl.Control.Share
import CapacityControl.Proofs.Exact.Arithmetic
import Mathlib.Algebra.Order.Group.Unbundled.Abs
import Mathlib.Algebra.Order.Group.Pointwise.Interval
import Mathlib.Order.Interval.Set.UnorderedInterval

namespace CapacityControl.Control

open Extended (finite)

/-! ## §1. Limited sums. -/

/-- A rational limited to the unit interval. -/
def limited (x : Rat) : Rat := max 0 (min x 1)

theorem limited_mono : Monotone limited := fun _ _ h =>
  max_le_max le_rfl (min_le_min_right 1 h)

theorem limited_mem (x : Rat) : limited x ∈ Set.Icc (0 : Rat) 1 :=
  ⟨le_max_left _ _, max_le zero_le_one (min_le_right x 1)⟩

/-- **A limited sum lies between the share and the sum.** -/
theorem limited_mem_uIcc {old : Rat} (hold : old ∈ Set.Icc (0 : Rat) 1) (x : Rat) :
    limited x ∈ Set.uIcc old x := by
  obtain ⟨hnonneg, hone⟩ := hold
  rw [Set.mem_uIcc]
  rcases le_total old x with h | h
  · exact Or.inl ⟨(le_min h hone).trans (le_max_right 0 _),
      max_le (hnonneg.trans h) (min_le_left x 1)⟩
  · exact Or.inr ⟨(le_min le_rfl (h.trans hone)).trans (le_max_right 0 _),
      max_le hnonneg ((min_le_left x 1).trans h)⟩

/-! ## §2. Tolerance. -/

/-- How far apart two rationals may be and still count as equal. -/
def tolerance (a b : Rat) : Rat := max (1 / 10 ^ 12) (1 / 10 ^ 9 * max |a| |b|)

/-- **Within tolerance.** -/
def Within (a b : Rat) : Prop := |a - b| ≤ tolerance a b

instance (a b : Rat) : Decidable (Within a b) := inferInstanceAs (Decidable (_ ≤ _))

/-- Equality up to the tolerances of the control loop, between rationals. -/
theorem nearlyEqual_finite (a b : Rat) :
    Scalar.nearlyEqual .standard (finite a) (finite b) = true ↔ Within a b := by
  unfold Scalar.nearlyEqual Scalar.Tolerance.standard Within tolerance
  simp

theorem within_self (a : Rat) : Within a a := by
  unfold Within tolerance
  rw [sub_self, abs_zero]
  exact le_max_of_le_left (by norm_num)

/-- **The sums within tolerance of a share are an interval around it.** -/
theorem within_of_mem_uIcc {a b c : Rat} (ha : 0 ≤ a) (hb : 0 ≤ b) (hc : c ∈ Set.uIcc a b)
    (h : Within a b) : Within a c := by
  unfold Within tolerance at h ⊢
  rw [abs_of_nonneg ha, abs_of_nonneg hb] at h
  rcases Set.mem_uIcc.mp hc with ⟨hac, hcb⟩ | ⟨hbc, hca⟩
  · -- Towards a greater sum the relative tolerance shrinks, but less than the distance does.
    rw [max_eq_right (hac.trans hcb), abs_sub_comm, abs_of_nonneg (sub_nonneg.mpr (hac.trans hcb)),
      le_max_iff] at h
    rw [abs_of_nonneg ha, abs_of_nonneg (ha.trans hac), max_eq_right hac, abs_sub_comm,
      abs_of_nonneg (sub_nonneg.mpr hac), le_max_iff]
    rcases h with h | h
    · exact Or.inl (by linarith)
    · exact Or.inr (by linarith)
  · -- Towards a smaller sum the tolerance is that of the share itself.
    rw [max_eq_left (hbc.trans hca), abs_of_nonneg (sub_nonneg.mpr (hbc.trans hca))] at h
    rw [abs_of_nonneg ha, abs_of_nonneg (hb.trans hbc), max_eq_left hca,
      abs_of_nonneg (sub_nonneg.mpr hca)]
    exact (sub_le_sub_left hbc a).trans h

/-! ## §3. Changed shares. -/

/-- The share after a change: the share that is sent, or the old one. -/
def changedShare {α : Type} [Scalar α] (old delta : α) : α := (nextShare old delta).getD old

/-- The share after a change, between rationals. -/
def changed (old delta : Rat) : Rat :=
  if Within old (limited (old + delta)) then old else limited (old + delta)

/-- What is sent, if anything is, is the limited sum. -/
theorem clampUnit_add_finite (old delta : Rat) :
    Scalar.clampUnit (finite old + finite delta) = finite (limited (old + delta)) := by
  rw [Extended.finite_add, Extended.clampUnit_finite]
  rfl

theorem changedShare_finite (old delta : Rat) :
    changedShare (finite old) (finite delta) = finite (changed old delta) := by
  unfold changedShare nextShare changed
  rw [clampUnit_add_finite]
  show (if (!Scalar.isFinite (finite (limited (old + delta)))
    || Scalar.nearlyEqual .standard (finite old) (finite (limited (old + delta)))) = true
    then none else some (finite (limited (old + delta)))).getD (finite old) = _
  rw [Extended.isFinite_finite, Bool.not_true, Bool.false_or]
  by_cases h : Within old (limited (old + delta))
  · rw [if_pos ((nearlyEqual_finite _ _).mpr h), if_pos h]
    rfl
  · rw [if_neg (mt (nearlyEqual_finite _ _).mp h), if_neg h]
    rfl

/-- A share is kept exactly if the sum is within tolerance of it. -/
theorem changed_eq_self_iff (old delta : Rat) :
    changed old delta = old ↔ Within old (limited (old + delta)) := by
  unfold changed
  constructor
  · intro h
    by_contra hwithin
    rw [if_neg hwithin] at h
    rw [h] at hwithin
    exact hwithin (within_self old)
  · exact fun h => if_pos h

/-- What is held back of a sum is within tolerance. -/
theorem abs_changed_sub_le (old delta : Rat) :
    |changed old delta - limited (old + delta)| ≤ tolerance old (limited (old + delta)) := by
  unfold changed
  split_ifs with hin
  · exact hin
  · rw [sub_self, abs_zero]
    exact le_max_of_le_left (by norm_num)

section Changed

variable {old : Rat} (hold : old ∈ Set.Icc (0 : Rat) 1)

include hold

theorem changed_mem (delta : Rat) : changed old delta ∈ Set.Icc (0 : Rat) 1 := by
  unfold changed
  split_ifs
  · exact hold
  · exact limited_mem _

/-- A changed share lies between the old one and their sum. -/
theorem changed_mem_uIcc (delta : Rat) : changed old delta ∈ Set.uIcc old (old + delta) := by
  unfold changed
  split_ifs
  · exact Set.left_mem_uIcc
  · exact limited_mem_uIcc hold _

/-- **The greater change leaves the greater share**, across the edges of the band as well. -/
theorem changed_mono : Monotone (changed old) := by
  intro delta delta' h
  have hsums : limited (old + delta) ≤ limited (old + delta') :=
    limited_mono (add_le_add_right h old)
  have hnonneg := (limited_mem (old + delta)).1
  have hnonneg' := (limited_mem (old + delta')).1
  unfold changed
  split_ifs with hin hin' hin'
  · exact le_rfl
  · -- The greater sum is outside and not between, so it lies above the share.
    by_contra hbelow
    have hbetween := Set.mem_uIcc_of_ge hsums (not_le.mp hbelow).le
    exact hin' (within_of_mem_uIcc hold.1 hnonneg hbetween hin)
  · -- The smaller sum is outside and not between, so it lies below the share.
    by_contra habove
    have hbetween := Set.mem_uIcc_of_le (not_le.mp habove).le hsums
    exact hin (within_of_mem_uIcc hold.1 hnonneg' hbetween hin')
  · exact hsums

end Changed

/-! ## §4. Shares follow their changes. -/

/-- **What a change does** to a share in the unit interval. -/
structure Follows (old delta share : Rat) : Prop where
  mem : share ∈ Set.Icc (0 : Rat) 1
  up : 0 ≤ delta → old ≤ share
  down : delta ≤ 0 → share ≤ old
  reach : |share - old| ≤ |delta|
  kept : share = old ↔ Scalar.nearlyEqual .standard (finite old)
    (Scalar.clampUnit (finite old + finite delta)) = true
  sent : Scalar.nearlyEqual .standard (finite old)
    (Scalar.clampUnit (finite old + finite delta)) = false →
      finite share = Scalar.clampUnit (finite old + finite delta)
  close : |share - limited (old + delta)|
    ≤ max (1 / 10 ^ 12) (1 / 10 ^ 9 * max old (limited (old + delta)))

theorem follows_changed {old : Rat} (hold : old ∈ Set.Icc (0 : Rat) 1) (delta : Rat) :
    Follows old delta (changed old delta) where
  mem := changed_mem hold delta
  up h := by
    have hbetween := changed_mem_uIcc hold delta
    rw [Set.uIcc_of_le (le_add_of_nonneg_right h)] at hbetween
    exact hbetween.1
  down h := by
    have hbetween := changed_mem_uIcc hold delta
    rw [Set.uIcc_of_ge (add_le_of_nonpos_right h)] at hbetween
    exact hbetween.2
  reach := by
    have hreach := Set.abs_sub_left_of_mem_uIcc (changed_mem_uIcc hold delta)
    rwa [add_sub_cancel_left] at hreach
  kept := by
    rw [clampUnit_add_finite, nearlyEqual_finite]
    exact changed_eq_self_iff old delta
  sent h := by
    rw [clampUnit_add_finite, ← Bool.not_eq_true, nearlyEqual_finite] at h
    rw [clampUnit_add_finite, changed, if_neg h]
  close := by
    -- Neither the share nor the limited sum is negative, so both are their own magnitudes.
    have hclose := abs_changed_sub_le old delta
    unfold tolerance at hclose
    rwa [abs_of_nonneg hold.1, abs_of_nonneg (limited_mem _).1] at hclose

/-- **A share follows its changes**, in exact arithmetic.  For every share in the unit interval the
share after a change is a number that depends on the change monotonically, stays in the unit
interval, moves with the sign of the change and no further than it, and is the limited sum, unless
that is equal up to the tolerances of the control loop: then the share is kept. -/
theorem share_follows_change {old : Rat} (hold : old ∈ Set.Icc (0 : Rat) 1) :
    ∃ share : Rat → Rat, (∀ delta, changedShare (finite old) (finite delta) = finite (share delta))
      ∧ Monotone share ∧ ∀ delta, Follows old delta (share delta) :=
  ⟨changed old, changedShare_finite old, changed_mono hold, follows_changed hold⟩

/-- At a share of one half a change of `1e-10` is held back, and a change of `1e-9` is sent. -/
theorem share_follows_change_edge : (1 / 2 : Rat) ∈ Set.Icc (0 : Rat) 1
    ∧ ∃ share : Rat → Rat,
      (∀ delta, changedShare (finite (1 / 2)) (finite delta) = finite (share delta))
        ∧ Monotone share ∧ (∀ delta, Follows (1 / 2) delta (share delta))
        ∧ share (1 / 10 ^ 10) = 1 / 2 ∧ share (1 / 10 ^ 9) = 1 / 2 + 1 / 10 ^ 9 := by
  have hold : (1 / 2 : Rat) ∈ Set.Icc (0 : Rat) 1 := by constructor <;> norm_num
  obtain ⟨share, hshare, hmono, hfollows⟩ := share_follows_change hold
  refine ⟨hold, share, hshare, hmono, hfollows, ?_, ?_⟩
  · refine (hfollows _).kept.mpr ?_
    decide +kernel
  · have hsent := (hfollows (1 / 10 ^ 9)).sent (by decide +kernel)
    rw [clampUnit_add_finite, Extended.finite_inj] at hsent
    rw [hsent, limited]
    norm_num

end CapacityControl.Control
