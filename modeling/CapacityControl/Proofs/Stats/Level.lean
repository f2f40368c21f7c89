/-
  CapacityControl.Proofs.Stats.Level
  ──────────────────────────────────
  SINGLE SMOOTHING FORGETS.  Every sample leaves of the level the share that the factor does
  not take.  So the levels of two pasts draw together by that share with every further sample,
  whichever it is (`foldl_weigh_sub`), and samples that stay the same pull the level to them; and
  a level is always a weighted mean of samples (`foldl_weigh_mem_Icc`).  All of this is
  collected in `single_smoothing_fades`.
-/
import CapacityControl.Proofs.Result
import CapacityControl.Proofs.Stats.Intake
import CapacityControl.Proofs.Stats.Settling
import Mathlib.Data.Set.Finite.Lemmas
import Mathlib.Order.Bounds.Basic

namespace CapacityControl.Stats

open Extended (finite)
open Intake (recent)

/-! ## §1. Levels. -/

/-- The level after one more sample. -/
def weigh (factor level value : Rat) : Rat := factor * value + (1 - factor) * level

section Levels

variable {factor : Rat}

/-- **The distance of two levels** shrinks by the same share with every common sample. -/
theorem foldl_weigh_sub (factor : Rat) (values : List Rat) (level level' : Rat) :
    values.foldl (weigh factor) level - values.foldl (weigh factor) level'
      = (1 - factor) ^ values.length * (level - level') := by
  induction values generalizing level level' with
  | nil => simp
  | cons value values ih =>
    have hstep : weigh factor level value - weigh factor level' value
        = (1 - factor) * (level - level') := by
      unfold weigh
      ring
    rw [List.foldl_cons, List.foldl_cons, ih, hstep, List.length_cons]
    ring

/-- **A level stays between the bounds** of what it started from and of the samples. -/
theorem foldl_weigh_mem_Icc (h0 : 0 ≤ factor) (h1 : factor ≤ 1) {low high : Rat}
    {values : List Rat} (hvalues : ∀ v ∈ values, v ∈ Set.Icc low high) {level : Rat}
    (hlevel : level ∈ Set.Icc low high) :
    values.foldl (weigh factor) level ∈ Set.Icc low high := by
  induction values generalizing level with
  | nil => exact hlevel
  | cons value values ih =>
    rw [List.forall_mem_cons] at hvalues
    refine ih hvalues.2 ?_
    have hrest : 0 ≤ 1 - factor := sub_nonneg.mpr h1
    constructor
    · calc low = factor * low + (1 - factor) * low := by ring
        _ ≤ weigh factor level value :=
          add_le_add (mul_le_mul_of_nonneg_left hvalues.1.1 h0)
            (mul_le_mul_of_nonneg_left hlevel.1 hrest)
    · calc weigh factor level value
          ≤ factor * high + (1 - factor) * high :=
          add_le_add (mul_le_mul_of_nonneg_left hvalues.1.2 h0)
            (mul_le_mul_of_nonneg_left hlevel.2 hrest)
        _ = high := by ring

/-- **A constant sample** takes from the square of the distance to it, with every step. -/
theorem dissipates_weigh (h0 : 0 < factor) (h1 : factor ≤ 1) (x : Rat) :
    Dissipates (weigh factor · x) (fun level => (level - x) ^ 2) 1 ((1 - factor) ^ 2) := by
  have hrest : 0 ≤ 1 - factor := sub_nonneg.mpr h1
  refine .of_step (fun level => sq_nonneg _) (sq_nonneg _) ?_ fun level => le_of_eq ?_
  · exact pow_lt_one₀ hrest (sub_lt_self 1 h0) two_ne_zero
  · unfold weigh
    ring

theorem foldl_replicate_weigh (factor x level : Rat) (n : Nat) :
    (List.replicate n x).foldl (weigh factor) level = (weigh factor · x)^[n] level := by
  induction n generalizing level with
  | zero => rfl
  | succ n ih =>
    rw [List.replicate_succ, List.foldl_cons, ih, Function.iterate_succ_apply]

end Levels

/-! ## §2. Smoothers with a level. -/

namespace SingleSmoother

/-- A smoother without samples. -/
def unseeded (factor : Rat) : Smoother Extended := .single ⟨finite factor, none⟩

/-- A smoother with a rational level. -/
def seeded (factor level : Rat) : Smoother Extended := .single ⟨finite factor, some (finite level)⟩

variable {factor : Rat}

theorem new_finite (h0 : 0 < factor) (h1 : factor ≤ 1) :
    SingleSmoother.new (finite factor) = .ok ⟨finite factor, none⟩ :=
  map_eq_ok_iff.mpr ⟨_, Extended.ensureFactor_finite h0 h1 _, rfl⟩

theorem smooth_seeded (factor level value : Rat) :
    (seeded factor level).smooth (finite value) = seeded factor (weigh factor level value) := by
  simp [seeded, Smoother.smooth, smooth, next, weigh]

theorem smoothMany_seeded (factor level : Rat) (values : List Rat) :
    (seeded factor level).smoothMany (values.map finite)
      = seeded factor (values.foldl (weigh factor) level) := by
  unfold Smoother.smoothMany
  induction values generalizing level with
  | nil => rfl
  | cons value values ih => rw [List.map_cons, List.foldl_cons, smooth_seeded, ih, List.foldl_cons]

/-- **The first sample is the first level**, and the others are weighed in. -/
theorem fed_unseeded {past : List (Intake Rat)} {first : Rat} {others : List Rat}
    (h : recent past = first :: others) :
    (unseeded factor).fed past = seeded factor (others.foldl (weigh factor) first) := by
  rw [Smoother.fed_eq rfl, h]
  exact smoothMany_seeded factor first others

/-- **After the first sample** there is a level, into which all further samples are weighed. -/
theorem exists_level {past : List (Intake Rat)} (h : recent past ≠ []) :
    ∃ level, (unseeded factor).fed past = seeded factor level
      ∧ ∀ more, Intake.reset ∉ more → (unseeded factor).fed (past ++ more)
        = seeded factor ((more.flatMap Intake.samples).foldl (weigh factor) level) := by
  obtain ⟨first, others, hpast⟩ := List.exists_cons_of_ne_nil h
  refine ⟨others.foldl (weigh factor) first, fed_unseeded hpast, fun more hmore => ?_⟩
  have hrecent : recent (past ++ more) = first :: (others ++ more.flatMap Intake.samples) := by
    rw [Intake.recent_append past hmore, hpast, List.cons_append]
  rw [fed_unseeded hrecent, List.foldl_append]

end SingleSmoother

/-! ## §3. Forgetting. -/

/-- **A smoother fades**: its forecast is its level, and of what it had before only the fraction
`rate` is left after one more sample. -/
structure Smoother.Fades (s : Smoother Extended) (rate : Rat) : Prop where
  /-- Two pasts, and the same further samples, however they are cut into batches: what the forecasts
  differ by shrinks by `rate` with each sample. -/
  differ (past past' more more' : List (Intake Rat)) (h : recent past ≠ []) (h' : recent past' ≠ [])
    (hmore : .reset ∉ more) (hmore' : .reset ∉ more')
    (hsame : more.flatMap Intake.samples = more'.flatMap Intake.samples) (horizon : Nat) :
    ∃ x x' y y' : Rat, (s.fed past).forecast? horizon = some (finite x)
      ∧ (s.fed past').forecast? horizon = some (finite x')
      ∧ (s.fed (past ++ more)).forecast? horizon = some (finite y)
      ∧ (s.fed (past' ++ more')).forecast? horizon = some (finite y')
      ∧ y - y' = rate ^ (more.flatMap Intake.samples).length * (x - x')
  /-- After any past, a sample that is repeated drives the forecast to itself. -/
  settles (past : List (Intake Rat)) (x : Rat) (horizon : Nat) :
    SettlesOn (fun n => (s.fed (past ++ List.replicate n (.sample x))).forecast? horizon) fun _ => x
  /-- The level lies between the least and the greatest sample since the last reset, and is the
  forecast for every horizon. -/
  spans (past : List (Intake Rat)) (h : recent past ≠ []) :
    ∃ least greatest level : Rat, IsLeast {x | x ∈ recent past} least
      ∧ IsGreatest {x | x ∈ recent past} greatest ∧ least ≤ level ∧ level ≤ greatest
      ∧ (s.fed past).level? = some (finite level)
      ∧ ∀ horizon, (s.fed past).forecast? horizon = some (finite level)

namespace SingleSmoother

variable {factor : Rat}

theorem settlesOn_replicate (h0 : 0 < factor) (h1 : factor ≤ 1) (past : List (Intake Rat))
    (x : Rat) (horizon : Nat) :
    SettlesOn (fun n => ((unseeded factor).fed (past ++ List.replicate n (.sample x))).forecast?
      horizon) fun _ => x := by
  -- The first of the equal samples makes sure that there is a level.
  have hsome : recent (past ++ [.sample x]) ≠ [] := by
    rw [Intake.recent_concat]
    exact List.append_ne_nil_of_right_ne_nil _ (List.cons_ne_nil x [])
  obtain ⟨level, _, hlevel⟩ := exists_level hsome
  refine .of_dissipates (dissipates_weigh h0 h1 x) zero_le_one 1 level fun n => ?_
  have hquiet : Intake.reset ∉ List.replicate n (Intake.sample x) := fun hmem => by
    cases List.eq_of_mem_replicate hmem
  have hsamples : (List.replicate n (Intake.sample x)).flatMap Intake.samples
      = List.replicate n x := by
    simp [List.flatMap_replicate, Intake.samples]
  have hfed := hlevel _ hquiet
  rw [hsamples, foldl_replicate_weigh, List.append_assoc, List.singleton_append,
    ← List.replicate_succ] at hfed
  refine ⟨(weigh factor · x)^[n] level, ?_, (one_mul _).ge⟩
  rw [hfed]
  rfl

theorem exists_span (h0 : 0 < factor) (h1 : factor ≤ 1) {samples : List Rat} {first : Rat}
    {others : List Rat} (h : samples = first :: others) :
    ∃ least greatest, IsLeast {x | x ∈ samples} least ∧ IsGreatest {x | x ∈ samples} greatest
      ∧ others.foldl (weigh factor) first ∈ Set.Icc least greatest := by
  have hfirst : first ∈ samples := h ▸ List.mem_cons_self
  obtain ⟨least, hleast, hlow⟩ :=
    Set.exists_min_image {x | x ∈ samples} id samples.finite_toSet ⟨first, hfirst⟩
  obtain ⟨greatest, hgreatest, hhigh⟩ :=
    Set.exists_max_image {x | x ∈ samples} id samples.finite_toSet ⟨first, hfirst⟩
  refine ⟨least, greatest, ⟨hleast, hlow⟩, ⟨hgreatest, hhigh⟩, ?_⟩
  refine foldl_weigh_mem_Icc h0.le h1 (fun v hv => ?_) ⟨hlow first hfirst, hhigh first hfirst⟩
  have hmem : v ∈ samples := h ▸ List.mem_cons_of_mem first hv
  exact ⟨hlow v hmem, hhigh v hmem⟩

/-- **Single smoothing fades** by what the factor leaves over, in exact arithmetic. -/
theorem single_smoothing_fades (h0 : 0 < factor) (h1 : factor ≤ 1) :
    ∃ fresh, SingleSmoother.new (finite factor) = .ok fresh
      ∧ (Smoother.single fresh).Fades (1 - factor) := by
  refine ⟨_, new_finite h0 h1, ?_, settlesOn_replicate h0 h1, ?_⟩
  · intro past past' more more' h h' hmore hmore' hsame horizon
    obtain ⟨x, hpast, hfed⟩ := exists_level h
    obtain ⟨x', hpast', hfed'⟩ := exists_level h'
    refine ⟨x, x', _, _, ?_, ?_, ?_, ?_, foldl_weigh_sub factor _ x x'⟩
    · exact congrArg (Smoother.forecast? · horizon) hpast
    · exact congrArg (Smoother.forecast? · horizon) hpast'
    · exact congrArg (Smoother.forecast? · horizon) (hfed more hmore)
    · rw [hsame]
      exact congrArg (Smoother.forecast? · horizon) (hfed' more' hmore')
  · intro past h
    obtain ⟨first, others, hpast⟩ := List.exists_cons_of_ne_nil h
    obtain ⟨least, greatest, hleast, hgreatest, hlow, hhigh⟩ := exists_span h0 h1 hpast
    refine ⟨least, greatest, _, hleast, hgreatest, hlow, hhigh, ?_, fun horizon => ?_⟩
    · exact congrArg Smoother.level? (fed_unseeded hpast)
    · exact congrArg (Smoother.forecast? · horizon) (fed_unseeded hpast)

/-- With the factor `9/10`, a batch and a sample that a reset separates on one side, a single sample
on the other, and three further samples that are cut differently: of what the forecasts differ by
one thousandth is left. -/
theorem single_smoothing_fades_trial : 0 < (9 / 10 : Rat) ∧ (9 / 10 : Rat) ≤ 1
    ∧ ∃ fresh, SingleSmoother.new (finite (9 / 10)) = .ok fresh
      ∧ (Smoother.single fresh).Fades (1 - 9 / 10)
      ∧ ∃ x x' y y' : Rat,
        ((Smoother.single fresh).fed [.batch [1, 2], .reset, .sample 3]).forecast? 0
            = some (finite x)
          ∧ ((Smoother.single fresh).fed [.sample 5]).forecast? 0 = some (finite x')
          ∧ ((Smoother.single fresh).fed ([.batch [1, 2], .reset, .sample 3]
              ++ [.batch [1, 0], .sample 2])).forecast? 0 = some (finite y)
          ∧ ((Smoother.single fresh).fed ([.sample 5]
              ++ [.sample 1, .batch [], .batch [0, 2]])).forecast? 0 = some (finite y')
          ∧ y - y' = (1 - 9 / 10) ^ 3 * (x - x') := by
  have h0 : 0 < (9 / 10 : Rat) := by norm_num
  have h1 : (9 / 10 : Rat) ≤ 1 := by norm_num
  obtain ⟨fresh, hnew, hfades⟩ := single_smoothing_fades h0 h1
  refine ⟨h0, h1, fresh, hnew, hfades, hfades.differ _ _ _ _ ?_ ?_ ?_ ?_ rfl 0⟩
  · simp [recent, Intake.extend]
  · simp [recent, Intake.extend]
  · simp
  · simp

end SingleSmoother

end CapacityControl.Stats
