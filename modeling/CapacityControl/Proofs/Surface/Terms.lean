/-
  CapacityControl.Proofs.Surface.Terms
  ────────────────────────────────────
  THE WORDS OF THE RULE BASE, exactly.  Each term of a residual, of the error and of a
  change is a fuzzy set with rational corners.  Where a set is positive (`reaches`)
  decides which cells of the rule table apply.  The set of a change is a triangle with
  its apex in the middle.
-/
import CapacityControl.Control.Surface
import CapacityControl.Proofs.Fuzzy.Degree

namespace CapacityControl.Control

open Fuzzy
open Extended (finite)

/-! ## §1. Residuals. -/

namespace ResidualTerm

/-- The fuzzy set of a residual term, with rational corners. -/
def ratShape : ResidualTerm → Shape Rat
  | negative => .ramp (3 / 10) 0
  | adequate => .triangle (1 / 10) (1 / 4) (2 / 5)
  | positive => .ramp (3 / 10) 1

theorem shape_eq (t : ResidualTerm) : (t.shape : Shape Extended) = t.ratShape.map finite := by
  cases t <;> norm_num [shape, ratShape, Shape.map]

/-- Where a residual belongs to a term to some degree. -/
def reaches : ResidualTerm → Rat → Prop
  | negative, x => x < 3 / 10
  | adequate, x => 1 / 10 < x ∧ x < 2 / 5
  | positive, x => 3 / 10 < x

theorem degree_pos_iff (t : ResidualTerm) (x : Rat) : 0 < t.ratShape.degree x ↔ t.reaches x := by
  cases t with
  | negative => exact Shape.falling_degree_pos_iff (by norm_num)
  | adequate => exact Shape.triangle_degree_pos_iff (by norm_num) (by norm_num)
  | positive => exact Shape.rising_degree_pos_iff (by norm_num)

/-- Every residual, however large or small, belongs to some term. -/
theorem exists_reaches (x : Rat) : ∃ t : ResidualTerm, t.reaches x := by
  rcases lt_or_ge x (3 / 10) with hlow | hhigh
  · exact ⟨negative, hlow⟩
  · rcases lt_or_ge x (2 / 5) with hmid | hfar
    · exact ⟨adequate, by linarith, hmid⟩
    · exact ⟨positive, lt_of_lt_of_le (by norm_num) hfar⟩

/-- A residual belongs to one term and to no other. -/
def IsOnly (t : ResidualTerm) (x : Rat) : Prop := ∀ t' : ResidualTerm, t'.reaches x ↔ t' = t

variable {t : ResidualTerm} {x y : Rat}

/-- Next to a clear shortage, only the negative residual applies. -/
theorem isOnly_negative (h : x ≤ 1 / 10) : negative.IsOnly x := by
  intro t
  cases t <;> simp only [reaches, reduceCtorEq, iff_true, iff_false, not_and] <;> intros <;>
    linarith

/-- Where the negative residual ends and the positive one begins, only the adequate one applies. -/
theorem isOnly_adequate : adequate.IsOnly (3 / 10) := by
  intro t
  cases t <;> simp only [reaches, reduceCtorEq, iff_true, iff_false] <;> norm_num

/-- Next to a clear excess, only the positive residual applies. -/
theorem isOnly_positive (h : 2 / 5 ≤ x) : positive.IsOnly x := by
  intro t
  cases t <;> simp only [reaches, reduceCtorEq, iff_true, iff_false, not_and] <;> intros <;>
    linarith

theorem negative_degree_eq (h0 : 0 ≤ x) (h : x ≤ 3 / 10) :
    negative.ratShape.degree x = 1 - 10 / 3 * x :=
  (Shape.falling_degree_between (by norm_num) h0 h).trans (by ring)

theorem adequate_degree_rising (h0 : 1 / 10 ≤ x) (h : x ≤ 1 / 4) :
    adequate.ratShape.degree x = 20 / 3 * x - 2 / 3 :=
  (Shape.triangle_degree_left (by norm_num) (by norm_num) h0 h).trans (by ring)

theorem adequate_degree_falling (h0 : 1 / 4 ≤ x) (h : x ≤ 2 / 5) :
    adequate.ratShape.degree x = 8 / 3 - 20 / 3 * x :=
  (Shape.triangle_degree_right (by norm_num) (by norm_num) h0 h).trans (by ring)

theorem positive_degree_eq (h0 : 3 / 10 ≤ x) (h : x ≤ 1) :
    positive.ratShape.degree x = 10 / 7 * x - 3 / 7 :=
  (Shape.rising_degree_between (by norm_num) h0 h).trans (by ring)

/-- Between two residuals of which the second belongs less to the adequate term there is one
beyond the apex for every degree in between. -/
theorem exists_adequate_falling {w : Rat} (hw : w ≤ 1) (hxy : x ≤ y)
    (hend : y ≤ 2 / 5) (hfirst : w ≤ adequate.ratShape.degree x)
    (hsecond : adequate.ratShape.degree y < w) :
    ∃ z, 1 / 4 ≤ z ∧ x ≤ z ∧ z ≤ y ∧ adequate.ratShape.degree z = w := by
  have hfall : 1 / 4 < y := by
    by_contra hrise
    have hmono : adequate.ratShape.degree x ≤ adequate.ratShape.degree y :=
      Shape.triangle_degree_mono (by norm_num) (by norm_num) hxy (not_lt.mp hrise)
    exact absurd (hfirst.trans hmono) (not_le.mpr hsecond)
  rw [adequate_degree_falling hfall.le hend] at hsecond
  refine ⟨2 / 5 - 3 / 20 * w, by linarith, ?_, by linarith, ?_⟩
  · rcases le_or_gt x (1 / 4) with hrise | hbeyond
    · linarith
    · rw [adequate_degree_falling hbeyond.le (hxy.trans hend)] at hfirst
      linarith
  · rw [adequate_degree_falling (by linarith) (by linarith)]
    ring

end ResidualTerm

/-! ## §2. Errors. -/

namespace ErrorTerm

/-- The fuzzy set of an error term, with rational corners. -/
def ratShape : ErrorTerm → Shape Rat
  | low => .ramp (1 / 5) (-2 / 5)
  | fine => .triangle (1 / 10) (1 / 5) (3 / 10)
  | high => .ramp (3 / 10) 1

theorem shape_eq (u : ErrorTerm) : (u.shape : Shape Extended) = u.ratShape.map finite := by
  cases u <;> norm_num [shape, ratShape, Shape.map]

/-- Where an error belongs to a term to some degree. -/
def reaches : ErrorTerm → Rat → Prop
  | low, x => x < 1 / 5
  | fine, x => 1 / 10 < x ∧ x < 3 / 10
  | high, x => 3 / 10 < x

theorem degree_pos_iff (u : ErrorTerm) (x : Rat) : 0 < u.ratShape.degree x ↔ u.reaches x := by
  cases u with
  | low => exact Shape.falling_degree_pos_iff (by norm_num)
  | fine => exact Shape.triangle_degree_pos_iff (by norm_num) (by norm_num)
  | high => exact Shape.rising_degree_pos_iff (by norm_num)

/-- The only error that belongs to no term is the one at which `fine` ends and `high`
begins. -/
theorem exists_reaches_iff (x : Rat) : (∃ u : ErrorTerm, u.reaches x) ↔ x ≠ 3 / 10 := by
  constructor
  · rintro ⟨u, hu⟩ rfl
    cases u with
    | low => norm_num [reaches] at hu
    | fine => norm_num [reaches] at hu
    | high => norm_num [reaches] at hu
  · intro hne
    rcases lt_or_gt_of_ne hne with hlow | hhigh
    · rcases lt_or_ge x (1 / 5) with hfar | hmid
      · exact ⟨low, hfar⟩
      · exact ⟨fine, lt_of_lt_of_le (by norm_num) hmid, hlow⟩
    · exact ⟨high, hhigh⟩

/-- An error belongs to one term and to no other. -/
def IsOnly (u : ErrorTerm) (x : Rat) : Prop := ∀ u' : ErrorTerm, u'.reaches x ↔ u' = u

variable {u : ErrorTerm} {x : Rat}

/-- Without clear headroom of the application, only the low error applies. -/
theorem isOnly_low (h : x ≤ 1 / 10) : low.IsOnly x := by
  intro u
  cases u <;> simp only [reaches, reduceCtorEq, iff_true, iff_false, not_and] <;> intros <;>
    linarith

/-- From its apex up to the hole, only the fine error applies. -/
theorem isOnly_fine (h0 : 1 / 5 ≤ x) (h : x < 3 / 10) : fine.IsOnly x := by
  intro u
  cases u <;> simp only [reaches, reduceCtorEq, iff_true, iff_false] <;> first | constructor | skip
  all_goals linarith

/-- Beyond the hole, only the high error applies. -/
theorem isOnly_high (h : 3 / 10 < x) : high.IsOnly x := by
  intro u
  cases u <;> simp only [reaches, reduceCtorEq, iff_true, iff_false, not_and] <;> intros <;>
    linarith

theorem low_degree_eq (h0 : -2 / 5 ≤ x) (h : x ≤ 1 / 5) :
    low.ratShape.degree x = 1 / 3 - 5 / 3 * x :=
  (Shape.falling_degree_between (by norm_num) h0 h).trans (by ring)

theorem fine_degree_rising (h0 : 1 / 10 ≤ x) (h : x ≤ 1 / 5) :
    fine.ratShape.degree x = 10 * x - 1 :=
  (Shape.triangle_degree_left (by norm_num) (by norm_num) h0 h).trans (by ring)

theorem fine_degree_falling (h0 : 1 / 5 ≤ x) (h : x ≤ 3 / 10) :
    fine.ratShape.degree x = 3 - 10 * x :=
  (Shape.triangle_degree_right (by norm_num) (by norm_num) h0 h).trans (by ring)

theorem high_degree_eq (h0 : 3 / 10 ≤ x) (h : x ≤ 1) :
    high.ratShape.degree x = 10 / 7 * x - 3 / 7 :=
  (Shape.rising_degree_between (by norm_num) h0 h).trans (by ring)

end ErrorTerm

/-! ## §3. Changes. -/

namespace DeltaTerm

/-- Where the set of a change begins. -/
def left : DeltaTerm → Rat
  | bigDown => -1
  | down => -1 / 5
  | stay => -1 / 10
  | up => 1 / 20
  | bigUp => 1 / 10

/-- The change that belongs wholly to a term. -/
def apex : DeltaTerm → Rat
  | bigDown => -11 / 20
  | down => -1 / 8
  | stay => 0
  | up => 1 / 8
  | bigUp => 11 / 20

/-- Where the set of a change ends. -/
def right : DeltaTerm → Rat
  | bigDown => -1 / 10
  | down => -1 / 20
  | stay => 1 / 10
  | up => 1 / 5
  | bigUp => 1

variable (d : DeltaTerm)

/-- The fuzzy set of a change, with rational corners. -/
def ratShape : Shape Rat := .triangle d.left d.apex d.right

theorem shape_eq : (d.shape : Shape Extended) = d.ratShape.map finite := by
  cases d <;> norm_num [shape, ratShape, Shape.map, left, apex, right]

theorem left_lt_apex : d.left < d.apex := by
  cases d <;> norm_num [left, apex]

theorem apex_lt_right : d.apex < d.right := by
  cases d <;> norm_num [apex, right]

theorem apex_middle : d.apex - d.left = d.right - d.apex := by
  cases d <;> norm_num [left, apex, right]

/-- No set reaches beyond the range of a change. -/
theorem range_bounds : -1 ≤ d.left ∧ d.right ≤ 1 := by
  cases d <;> norm_num [left, right]

/-- How much of a change belongs to a term. -/
def degree (x : Rat) : Rat := d.ratShape.degree x

variable {d} {x : Rat}

theorem degree_nonneg (d : DeltaTerm) (x : Rat) : 0 ≤ d.degree x := d.ratShape.degree_nonneg x

theorem degree_le_one (d : DeltaTerm) (x : Rat) : d.degree x ≤ 1 := d.ratShape.degree_le_one x

theorem degree_pos_iff : 0 < d.degree x ↔ d.left < x ∧ x < d.right :=
  Shape.triangle_degree_pos_iff d.left_lt_apex d.apex_lt_right

theorem degree_of_le_left (hx : x ≤ d.left) : d.degree x = 0 :=
  Shape.triangle_degree_of_le_left d.left_lt_apex hx

theorem degree_of_right_le (hx : d.right ≤ x) : d.degree x = 0 :=
  Shape.triangle_degree_of_right_le d.apex_lt_right hx

theorem up_of_le (hx : x ≤ 1 / 20) : up.degree x = 0 :=
  degree_of_le_left hx

theorem up_of_ge (hx : 1 / 5 ≤ x) : up.degree x = 0 :=
  degree_of_right_le hx

theorem stay_of_ge (hx : 1 / 10 ≤ x) : stay.degree x = 0 :=
  degree_of_right_le hx

theorem bigUp_of_le (hx : x ≤ 1 / 10) : bigUp.degree x = 0 :=
  degree_of_le_left hx

theorem down_of_nonneg (hx : 0 ≤ x) : down.degree x = 0 :=
  degree_of_right_le (le_trans (by norm_num [right]) hx)

theorem degree_reflect (d : DeltaTerm) (x : Rat) : d.degree (2 * d.apex - x) = d.degree x :=
  Shape.triangle_degree_reflect d.apex_middle

/-- The term at its place in an output has the degree of the term. -/
theorem membershipAt_finite (r : Resource) (d : DeltaTerm) (x : Rat) :
    membershipAt (deltaOutput r : Output Extended).terms (all.idxOf d) (finite x)
      = finite (d.degree x) := by
  have hterm : membershipAt (deltaOutput r : Output Extended).terms (all.idxOf d) (finite x)
      = (d.shape : Shape Extended).membership (finite x) := by
    cases d <;> rfl
  rw [hterm, shape_eq, Shape.membership_finite]
  rfl

end DeltaTerm

end CapacityControl.Control
