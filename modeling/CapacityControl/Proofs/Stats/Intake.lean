/-
  CapacityControl.Proofs.Stats.Intake
  ───────────────────────────────────
  WHAT A STATISTIC IS GIVEN.  Samples come one by one or in batches, and now and then the
  statistic has to forget them.  One that takes in a batch sample by sample, and of which a
  reset leaves nothing but its settings, depends on the samples since the last reset only
  (`recent`): neither on how they were cut into batches nor on what came before
  (`Intake.foldl_give`).  All smoothers are such statistics (`Smoother.after_eq`).
-/
import CapacityControl.Scalar.Extended
import CapacityControl.Stats.Smoother
import Mathlib.Data.List.Induction

namespace CapacityControl.Stats

/-! ## §1. Intakes. -/

/-- What is done to a statistic. -/
inductive Intake (α : Type) where
  | sample (value : α)
  /-- Samples at once, in order; there need not be any. -/
  | batch (values : List α)
  | reset

namespace Intake

variable {α β : Type}

/-- The intake with every sample mapped. -/
def map (f : α → β) : Intake α → Intake β
  | sample value => sample (f value)
  | batch values => batch (values.map f)
  | reset => reset

/-- The samples that an intake brings. -/
def samples : Intake α → List α
  | sample value => [value]
  | batch values => values
  | reset => []

/-- The samples since the last reset, after one more intake. -/
def extend (earlier : List α) : Intake α → List α
  | sample value => earlier ++ [value]
  | batch values => earlier ++ values
  | reset => []

/-- **The samples since the last reset.** -/
def recent (intakes : List (Intake α)) : List α := intakes.foldl extend []

theorem recent_concat (intakes : List (Intake α)) (intake : Intake α) :
    recent (intakes ++ [intake]) = extend (recent intakes) intake := by
  unfold recent
  rw [List.foldl_append]
  rfl

theorem recent_map (f : α → β) (intakes : List (Intake α)) :
    recent (intakes.map (map f)) = (recent intakes).map f := by
  induction intakes using List.reverseRecOn with
  | nil => rfl
  | append_singleton front intake ih =>
    rw [List.map_append, List.map_singleton, recent_concat, recent_concat, ih]
    cases intake with
    | sample value =>
      show (recent front).map f ++ [value].map f = _
      exact List.map_append.symm
    | batch values => exact List.map_append.symm
    | reset => rfl

/-- **Without a reset** samples are only added. -/
theorem recent_append (past : List (Intake α)) {more : List (Intake α)} (h : reset ∉ more) :
    recent (past ++ more) = recent past ++ more.flatMap samples := by
  induction more using List.reverseRecOn with
  | nil => simp
  | append_singleton front intake ih =>
    rw [List.mem_append, not_or] at h
    rw [← List.append_assoc, recent_concat, ih h.1, List.flatMap_append, ← List.append_assoc]
    cases intake with
    | sample value => rfl
    | batch values => simp [extend, samples]
    | reset =>
      -- A reset among the further intakes is excluded.
      exact absurd (List.mem_singleton_self _) h.2

/-! ## §2. Statistics that forget. -/

/-- What an intake does to a statistic that takes in samples by `collect`. -/
def give (collect : β → α → β) (reset : β → β) (statistic : β) : Intake α → β
  | .sample value => collect statistic value
  | .batch values => values.foldl collect statistic
  | .reset => reset statistic

/-- **A statistic that forgets** is determined by the samples since its last reset. -/
theorem foldl_give {collect : β → α → β} {reset : β → β} {fresh : β}
    (hcollect : ∀ statistic value, reset (collect statistic value) = reset statistic)
    (hfresh : reset fresh = fresh) (intakes : List (Intake α)) :
    intakes.foldl (give collect reset) fresh = (recent intakes).foldl collect fresh := by
  -- After any samples a reset leads back to the start, so that the fold may start there again.
  have hforgets : ∀ values, reset (List.foldl collect fresh values) = fresh := by
    intro values
    induction values using List.reverseRecOn with
    | nil => exact hfresh
    | append_singleton front value ih =>
      rw [List.foldl_append, List.foldl_cons, List.foldl_nil, hcollect, ih]
  induction intakes using List.reverseRecOn with
  | nil => rfl
  | append_singleton front intake ih =>
    rw [List.foldl_append, List.foldl_cons, List.foldl_nil, ih, recent_concat]
    cases intake with
    | sample value =>
      show [value].foldl collect ((recent front).foldl collect fresh) = _
      exact List.foldl_append.symm
    | batch values => exact List.foldl_append.symm
    | reset => exact hforgets _

end Intake

/-! ## §3. Smoothers. -/

namespace Smoother

open Intake (recent)

variable {α : Type} [Scalar α]

/-- What an intake makes of a smoother. -/
def take (s : Smoother α) : Intake α → Smoother α
  | .sample value => s.smooth value
  | .batch values => s.smoothMany values
  | .reset => s.reset

/-- A smoother after intakes. -/
def after (s : Smoother α) (intakes : List (Intake α)) : Smoother α := intakes.foldl take s

theorem take_eq_give : take (α := α) = Intake.give smooth reset := by
  funext s intake
  cases intake with
  | _ => rfl

theorem reset_smooth (s : Smoother α) (value : α) : (s.smooth value).reset = s.reset := by
  cases s with
  | _ => rfl

/-- **A smoother depends on the samples since its last reset.** -/
theorem after_eq {fresh : Smoother α} (h : fresh.reset = fresh) (intakes : List (Intake α)) :
    fresh.after intakes = fresh.smoothMany (recent intakes) := by
  unfold after smoothMany
  rw [take_eq_give]
  exact Intake.foldl_give reset_smooth h intakes

/-- A smoother after rational intakes. -/
def fed (s : Smoother Extended) (intakes : List (Intake Rat)) : Smoother Extended :=
  s.after (intakes.map (Intake.map .finite))

theorem fed_eq {fresh : Smoother Extended} (h : fresh.reset = fresh) (intakes : List (Intake Rat)) :
    fresh.fed intakes = fresh.smoothMany ((recent intakes).map .finite) := by
  rw [fed, after_eq h, Intake.recent_map]

end Smoother

end CapacityControl.Stats
