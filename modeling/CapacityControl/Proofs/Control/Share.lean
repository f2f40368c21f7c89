/-
  CapacityControl.Proofs.Control.Share
  ────────────────────────────────────
  SHARES STAY SHARES.  A share that `nextShare` wants sent is one that `checkShare`
  accepts, so a machine never has to refuse it for its range.  Only the order of the
  numbers matters for that (`OrderedScalar`), which exact arithmetic and binary floating
  point have in common.
-/
import CapacityControl.Control.Share
import CapacityControl.Proofs.Exact.Arithmetic
import CapacityControl.Scalar.Binary64

namespace CapacityControl

/-! ## §1. The order of the numbers. -/

/-- An arithmetic whose numbers are in a total order, with zero and one in place. -/
class OrderedScalar (α : Type) [Scalar α] : Prop where
  le_of_not_lt {a b : α} (ha : Scalar.isFinite a = true) (hb : Scalar.isFinite b = true)
    (h : ¬ a < b) : b ≤ a
  isFinite_zero : Scalar.isFinite (0.0 : α) = true
  isFinite_one : Scalar.isFinite (1.0 : α) = true
  inUnit_zero : Scalar.inUnit (0.0 : α) = true
  inUnit_one : Scalar.inUnit (1.0 : α) = true

instance : OrderedScalar Extended where
  le_of_not_lt {a b} ha hb h := by
    obtain ⟨p, rfl⟩ := (Extended.isFinite_iff a).mp ha
    obtain ⟨q, rfl⟩ := (Extended.isFinite_iff b).mp hb
    rw [Extended.finite_lt] at h
    exact (Extended.finite_le q p).mpr (not_lt.mp h)
  isFinite_zero := rfl
  isFinite_one := rfl
  inUnit_zero := by norm_num [Scalar.inUnit]
  inUnit_one := by norm_num [Scalar.inUnit]

namespace Binary64

open Float.Model (UnpackedFloat)

/-- Two numbers compare in either order with opposite answers. -/
theorem compare_swap {a b : UnpackedFloat} (ha : a.isFinite = true) (hb : b.isFinite = true) :
    ∃ order, a.compare b = some order ∧ b.compare a = some order.swap := by
  have hmagnitude : ∀ (m n : Nat) (e f : Int),
      (compare f e).then (compare n m) = ((compare e f).then (compare m n)).swap := by
    intro m n e f
    rw [Ordering.swap_then, ← Std.OrientedCmp.eq_swap, ← Std.OrientedCmp.eq_swap]
  cases a with
  | infinity s => cases ha
  | notANumber => cases ha
  | zero s =>
    cases b with
    | infinity t => cases hb
    | notANumber => cases hb
    | zero t => exact ⟨.eq, rfl, rfl⟩
    | finite t n f hn => cases t <;> exact ⟨_, rfl, rfl⟩
  | finite s m e hm =>
    cases b with
    | infinity t => cases hb
    | notANumber => cases hb
    | zero t => cases s <;> exact ⟨_, rfl, rfl⟩
    | finite t n f hn =>
      cases s <;> cases t
      · refine ⟨_, rfl, ?_⟩
        show some _ = some _
        rw [hmagnitude]
      · exact ⟨_, rfl, rfl⟩
      · exact ⟨_, rfl, rfl⟩
      · refine ⟨_, rfl, ?_⟩
        show some _ = some _
        rw [hmagnitude]

theorem le_of_not_lt {a b : Float} (ha : a.isFinite = true) (hb : b.isFinite = true)
    (h : ¬ a < b) : b ≤ a := by
  obtain ⟨order, hab, hba⟩ := compare_swap (a := a.toModel.unpack) (b := b.toModel.unpack) ha hb
  have hmodel : ¬ decide (a.toModel < b.toModel) = true := h
  rw [decide_eq_true_iff] at hmodel
  have hlt : (a.toModel.unpack.compare b.toModel.unpack == some .lt) ≠ true := hmodel
  show decide (b.toModel ≤ a.toModel) = true
  rw [decide_eq_true_iff]
  show (b.toModel.unpack.compare a.toModel.unpack).any (·.isLE) = true
  rw [hab] at hlt
  rw [hba]
  cases order with
  | lt => exact absurd rfl hlt
  | eq | gt => rfl

instance : OrderedScalar Float where
  le_of_not_lt := le_of_not_lt
  isFinite_zero := by decide
  isFinite_one := by decide
  inUnit_zero := by decide
  inUnit_one := by decide

end Binary64

namespace Control

variable {α : Type} [Scalar α]

/-! ## §2. Shares. -/

/-- Whatever passes the check is a share, and is left as it is. -/
theorem checkShare_eq_ok_iff {share checked : α} :
    checkShare share = .ok checked ↔ Scalar.inUnit share = true ∧ checked = share := by
  unfold checkShare
  by_cases hunit : Scalar.inUnit share = true
  · rw [if_pos hunit]
    constructor
    · intro h
      cases h
      exact ⟨hunit, rfl⟩
    · rintro ⟨_, rfl⟩
      rfl
  · rw [if_neg hunit]
    constructor
    · intro h
      cases h
    · intro h
      exact absurd h.1 hunit

variable [OrderedScalar α]

/-- A number that is limited to the unit interval lies in it. -/
theorem inUnit_clampUnit {x : α} (hfinite : Scalar.isFinite (Scalar.clampUnit x) = true) :
    Scalar.inUnit (Scalar.clampUnit x) = true := by
  unfold Scalar.clampUnit at hfinite ⊢
  by_cases hlow : x < 0.0
  · rw [if_pos hlow]
    exact OrderedScalar.inUnit_zero
  · rw [if_neg hlow] at hfinite ⊢
    by_cases hhigh : 1.0 < x
    · rw [if_pos hhigh]
      exact OrderedScalar.inUnit_one
    · rw [if_neg hhigh] at hfinite ⊢
      unfold Scalar.inUnit
      rw [Bool.and_eq_true, decide_eq_true_iff, decide_eq_true_iff]
      exact ⟨OrderedScalar.le_of_not_lt hfinite OrderedScalar.isFinite_zero hlow,
        OrderedScalar.le_of_not_lt OrderedScalar.isFinite_one hfinite hhigh⟩

/-- **What is to be sent is a share.** -/
theorem inUnit_of_nextShare {old delta share : α} (h : nextShare old delta = some share) :
    Scalar.inUnit share = true := by
  unfold nextShare at h
  by_cases hkeep : (!Scalar.isFinite (Scalar.clampUnit (old + delta))
      || Scalar.nearlyEqual .standard old (Scalar.clampUnit (old + delta))) = true
  · rw [if_pos hkeep] at h
    cases h
  · rw [if_neg hkeep] at h
    rw [Bool.not_eq_true, Bool.or_eq_false_iff, Bool.not_eq_false'] at hkeep
    cases h
    exact inUnit_clampUnit hkeep.1

end Control

end CapacityControl
