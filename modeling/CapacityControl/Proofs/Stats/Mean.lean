/-
  CapacityControl.Proofs.Stats.Mean
  ─────────────────────────────────
  THE RUNNING MEAN IS THE MEAN, exactly.  The accumulator never holds the sum, but between
  rationals its mean times its count is the sum, and one more sample keeps that so
  (`RunningMean.collect_exact`).  An estimator depends on the samples since its last reset
  only (`Estimator.after_eq`); a running mean moreover on their number and their sum, and
  so neither on their order nor on how they came in batches (`running_mean_exact`).
-/
import CapacityControl.Proofs.Stats.Estimate
import CapacityControl.Proofs.Stats.Intake
import Mathlib.Algebra.BigOperators.Group.List.Basic

namespace CapacityControl.Stats

open Extended (finite)
open Intake (recent)

/-! ## §1. Estimators and what they are given. -/

namespace Estimator

variable {α : Type} [Scalar α]

/-- What an intake makes of an estimator. -/
def take (e : Estimator α) : Intake α → Estimator α
  | .sample value => e.collect value
  | .batch values => e.collectMany values
  | .reset => e.reset

/-- An estimator after intakes. -/
def after (e : Estimator α) (intakes : List (Intake α)) : Estimator α := intakes.foldl take e

theorem take_eq_give : take (α := α) = Intake.give collect reset := by
  funext e intake
  cases intake with
  | _ => rfl

/-- **An estimator depends on the samples since its last reset**, whether it estimates a mean or a
quantile. -/
theorem after_eq {fresh : Estimator α} (h : fresh.reset = fresh) (intakes : List (Intake α)) :
    fresh.after intakes = fresh.collectMany (recent intakes) := by
  unfold after collectMany
  rw [take_eq_give]
  exact Intake.foldl_give (fun e value => reset_collectMany e [value]) h intakes

/-- An estimator after rational intakes. -/
def fed (e : Estimator Extended) (intakes : List (Intake Rat)) : Estimator Extended :=
  e.after (intakes.map (Intake.map .finite))

theorem fed_eq {fresh : Estimator Extended} (h : fresh.reset = fresh)
    (intakes : List (Intake Rat)) :
    fresh.fed intakes = fresh.collectMany ((recent intakes).map .finite) := by
  rw [fed, after_eq h, Intake.recent_map]

end Estimator

/-! ## §2. The mean of samples. -/

namespace RunningMean

/-- **The accumulator of samples**: their number, and their sum divided by it. -/
def exact (samples : List Rat) : RunningMean Extended :=
  ⟨samples.length, finite (samples.sum / samples.length)⟩

/-- Without samples there is no sum either. -/
theorem mean_mul_length (samples : List Rat) :
    samples.sum / samples.length * samples.length = samples.sum := by
  cases samples with
  | nil => simp
  | cons value samples =>
    have hcount : ((value :: samples).length : Rat) ≠ 0 := Nat.cast_ne_zero.mpr (Nat.succ_ne_zero _)
    exact div_mul_cancel₀ _ hcount

/-- The mean moves by the distance of a sample divided by the new count. -/
theorem mean_concat (samples : List Rat) (value : Rat) :
    samples.sum / samples.length + (value - samples.sum / samples.length) / (samples.length + 1)
      = (samples.sum + value) / (samples.length + 1) := by
  have hcount : (samples.length : Rat) + 1 ≠ 0 := Nat.cast_add_one_ne_zero _
  rw [eq_div_iff hcount, add_mul, div_mul_cancel₀ _ hcount]
  linarith [mean_mul_length samples]

/-- **One more sample** keeps the accumulator that of the samples. -/
theorem collect_exact (samples : List Rat) (value : Rat) :
    (exact samples).collect (finite value) = exact (samples ++ [value]) := by
  have hcount : ((samples.length + 1 : Nat) : Rat) ≠ 0 := Nat.cast_ne_zero.mpr (Nat.succ_ne_zero _)
  have hlength : (samples ++ [value]).length = samples.length + 1 := List.length_append
  have hsum : (samples ++ [value]).sum = samples.sum + value := by simp
  unfold exact collect
  rw [hlength, hsum, Extended.ofNat_eq, Extended.finite_sub, Extended.finite_div _ _ hcount,
    Extended.finite_add, Nat.cast_succ, mean_concat]

/-- **Samples one after the other** make the accumulator that they have together. -/
theorem foldl_collect_exact (samples : List Rat) :
    (samples.map finite).foldl collect empty = exact samples := by
  -- From the back, since it is the last sample that the accumulator takes in last.
  induction samples using List.reverseRecOn with
  | nil => simp [exact, empty]
  | append_singleton samples value ih =>
    rw [List.map_append, List.foldl_append, ih]
    exact collect_exact samples value

/-- The order of samples changes neither their number nor their sum. -/
theorem exact_perm {samples samples' : List Rat} (h : samples.Perm samples') :
    exact samples = exact samples' := by
  unfold exact
  rw [h.length_eq, h.sum_eq]

theorem estimate?_exact (samples : List Rat) :
    (exact samples).estimate?
      = if samples = [] then none else some (finite (samples.sum / samples.length)) := by
  cases samples with
  | nil => rfl
  | cons value samples => rfl

end RunningMean

/-! ## §3. Running means. -/

/-- Samples in a batch are taken in by the accumulator of the mean. -/
theorem Estimator.collectMany_mean {α : Type} [Scalar α] (m : RunningMean α) (values : List α) :
    (mean m).collectMany values = mean (values.foldl RunningMean.collect m) := by
  unfold collectMany
  induction values generalizing m with
  | nil => rfl
  | cons value values ih => exact ih _

/-- **A running mean holds the samples since its last reset**, as their number and their mean. -/
theorem Estimator.fed_mean (intakes : List (Intake Rat)) :
    (mean .empty).fed intakes = mean (.exact (recent intakes)) := by
  rw [fed_eq rfl, collectMany_mean, RunningMean.foldl_collect_exact]

/-- **The running mean is the mean**, in exact arithmetic.  After samples, batches and resets in
whatever order the count is the number of samples since the last reset, and the estimate is their
sum divided by it, if there is any.  The same samples in another order and in other batches leave
the same estimator behind. -/
theorem running_mean_exact : ∃ fresh, (EstimatorKind.mean : EstimatorKind Extended).build = .ok fresh
    ∧ (∀ intakes, (fresh.fed intakes).count = (recent intakes).length
      ∧ (fresh.fed intakes).estimate? = if recent intakes = [] then none
          else some (finite ((recent intakes).sum / (recent intakes).length)))
    ∧ ∀ intakes intakes', (recent intakes).Perm (recent intakes') →
      fresh.fed intakes = fresh.fed intakes' := by
  refine ⟨_, rfl, fun intakes => ?_, fun intakes intakes' hperm => ?_⟩
  · rw [Estimator.fed_mean]
    exact ⟨rfl, RunningMean.estimate?_exact _⟩
  · rw [Estimator.fed_mean, Estimator.fed_mean, RunningMean.exact_perm hperm]

/-- Three samples after a reset, in two batches with an empty one in between, and the same in
another order without any reset. -/
theorem running_mean_exact_trial : ∃ fresh,
    (EstimatorKind.mean : EstimatorKind Extended).build = .ok fresh
      ∧ fresh.fed [.sample 7, .reset, .batch [1, 2], .batch [], .sample 6]
        = fresh.fed [.batch [6, 1, 2]]
      ∧ (fresh.fed [.batch [6, 1, 2]]).count = 3
      ∧ (fresh.fed [.batch [6, 1, 2]]).estimate? = some (finite 3) := by
  obtain ⟨fresh, hbuild, hmean, hsame⟩ := running_mean_exact
  have hperm : (recent [.sample 7, .reset, .batch [1, 2], .batch [], .sample (6 : Rat)]).Perm
      (recent [.batch [6, 1, 2]]) := by
    show [1, 2, 6].Perm [6, 1, 2]
    decide
  obtain ⟨hcount, hestimate⟩ := hmean [.batch [6, 1, 2]]
  refine ⟨fresh, hbuild, hsame _ _ hperm, hcount, hestimate.trans ?_⟩
  show some (finite ((6 + (1 + (2 + 0))) / 3)) = some (finite 3)
  norm_num

end CapacityControl.Stats
