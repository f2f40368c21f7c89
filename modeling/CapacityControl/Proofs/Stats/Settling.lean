/-
  CapacityControl.Proofs.Stats.Settling
  ─────────────────────────────────────
  FORECASTS THAT SETTLE on a target come as close to it as wanted, and stay there
  (`SettlesOn`).  What such a forecast is still off by goes through the same step with every
  sample.  No part of it need get smaller at every step: it is enough that an energy which
  bounds the error never grows, and that every so many steps a fixed share of it is lost
  (`Dissipates`, `SettlesOn.of_dissipates`).
-/
import CapacityControl.Proofs.Exact.Arithmetic
import Mathlib.Algebra.Order.Archimedean.Basic
import Mathlib.Logic.Function.Iterate
import Mathlib.Order.Monotone.Basic

namespace CapacityControl.Stats

open Extended (finite)

/-! ## §1. Settling. -/

/-- **A forecast settles on a target**: from some sample on there is one, and its distance to the
target stays below any bound that was chosen. -/
def SettlesOn (forecast? : Nat → Option Extended) (target : Nat → Rat) : Prop :=
  ∀ ε : Rat, 0 < ε → ∃ first, ∀ n ≥ first,
    ∃ y, forecast? n = some (finite y) ∧ |y - target n| < ε

/-! ## §2. Energies. -/

/-- **A step dissipates energy**: it never adds any, and a turn of so many steps keeps at most the
fraction `kept`. -/
structure Dissipates {σ : Type} (step : σ → σ) (energy : σ → Rat) (turn : Nat) (kept : Rat) :
    Prop where
  nonneg (s : σ) : 0 ≤ energy s
  kept_nonneg : 0 ≤ kept
  kept_lt_one : kept < 1
  step_le (s : σ) : energy (step s) ≤ energy s
  turn_le (s : σ) : energy (step^[turn] s) ≤ kept * energy s

namespace Dissipates

variable {σ : Type} {step : σ → σ} {energy : σ → Rat} {turn : Nat} {kept : Rat}

/-- A turn may be a single step. -/
theorem of_step (nonneg : ∀ s, 0 ≤ energy s) (kept_nonneg : 0 ≤ kept) (kept_lt_one : kept < 1)
    (step_le : ∀ s, energy (step s) ≤ kept * energy s) : Dissipates step energy 1 kept where
  nonneg := nonneg
  kept_nonneg := kept_nonneg
  kept_lt_one := kept_lt_one
  step_le s := (step_le s).trans (mul_le_of_le_one_left (nonneg s) kept_lt_one.le)
  turn_le := step_le

variable (h : Dissipates step energy turn kept)

include h

/-- What is left after so many turns. -/
theorem iterate_le (s : σ) (turns : Nat) :
    energy (step^[turn * turns] s) ≤ kept ^ turns * energy s := by
  induction turns with
  | zero => simp
  | succ turns ih =>
    calc energy (step^[turn * (turns + 1)] s)
        = energy (step^[turn] (step^[turn * turns] s)) := by
          rw [Nat.mul_succ, Nat.add_comm, Function.iterate_add_apply]
      _ ≤ kept * energy (step^[turn * turns] s) := h.turn_le _
      _ ≤ kept * (kept ^ turns * energy s) := mul_le_mul_of_nonneg_left ih h.kept_nonneg
      _ = kept ^ (turns + 1) * energy s := by ring

theorem antitone (s : σ) : Antitone fun n => energy (step^[n] s) := by
  refine antitone_nat_of_succ_le fun n => ?_
  rw [Function.iterate_succ_apply']
  exact h.step_le _

/-- **The energy vanishes**: after enough steps it stays below any bound. -/
theorem exists_lt (s : σ) {ε : Rat} (hε : 0 < ε) :
    ∃ steps, ∀ n ≥ steps, energy (step^[n] s) < ε := by
  -- There may be no energy to begin with, so the share that has to be left is measured by one more.
  have hpos : 0 < energy s + 1 := add_pos_of_nonneg_of_pos (h.nonneg s) one_pos
  obtain ⟨turns, hturns⟩ := exists_pow_lt_of_lt_one (div_pos hε hpos) h.kept_lt_one
  refine ⟨turn * turns, fun n hn => ?_⟩
  calc energy (step^[n] s)
      ≤ energy (step^[turn * turns] s) := h.antitone s hn
    _ ≤ kept ^ turns * energy s := h.iterate_le s turns
    _ ≤ kept ^ turns * (energy s + 1) :=
        mul_le_mul_of_nonneg_left (le_add_of_nonneg_right zero_le_one)
          (pow_nonneg h.kept_nonneg turns)
    _ < ε := (lt_div_iff₀ hpos).mp hturns

end Dissipates

/-- **An error whose square a dissipated energy bounds** vanishes: the forecast settles. -/
theorem SettlesOn.of_dissipates {σ : Type} {step : σ → σ} {energy : σ → Rat} {turn : Nat}
    {kept weight : Rat} (h : Dissipates step energy turn kept) (hweight : 0 ≤ weight)
    {forecast? : Nat → Option Extended} {target : Nat → Rat} (first : Nat) (s : σ)
    (hbound : ∀ n, ∃ y, forecast? (n + first) = some (finite y)
      ∧ (y - target (n + first)) ^ 2 ≤ weight * energy (step^[n] s)) :
    SettlesOn forecast? target := by
  intro ε hε
  have hpos : 0 < weight + 1 := add_pos_of_nonneg_of_pos hweight one_pos
  obtain ⟨steps, hsteps⟩ := h.exists_lt s (div_pos (pow_pos hε 2) hpos)
  refine ⟨steps + first, fun n hn => ?_⟩
  obtain ⟨k, rfl⟩ : ∃ k, n = k + first := ⟨n - first, by omega⟩
  obtain ⟨y, hy, herror⟩ := hbound k
  -- The square of the error is below the square of `ε`, and so is the error below `ε`.
  have hsmall := (lt_div_iff₀ hpos).mp (hsteps k (by omega))
  have hsquare : (y - target (k + first)) ^ 2 < ε ^ 2 := by
    linarith [h.nonneg (step^[k] s)]
  exact ⟨y, hy, abs_lt_of_sq_lt_sq hsquare hε.le⟩

end CapacityControl.Stats
