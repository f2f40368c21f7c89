/-
  CapacityControl.Proofs.Stats.Stream
  ───────────────────────────────────
  A QUANTILE OVER A WHOLE STREAM.  From the fifth sample since the last reset on, the five
  markers stand in order at whole ranks, the outer ones at the least and the greatest sample,
  at ranks one and the number of samples, and each marker is to stand at its share of the way
  between (`Markers.Tracks`).  One sample keeps all of that, so every stream does; no
  adjustment ever divides by zero, and the estimate lies between the least and the greatest
  sample.  Before the fifth sample the estimate is the quantile of the samples themselves
  (`quantile_follows_stream`).
-/
import CapacityControl.Proofs.Stats.Estimate
import Mathlib.Order.Bounds.Basic

namespace CapacityControl.Stats

open Extended (finite)

/-! ## §1. The markers of a stream. -/

/-- A marker at a whole rank moves by whole ranks to another one. -/
theorem Marker.ShiftsTo.whole {m m' : Marker Rat} {step : Rat} (h : m.ShiftsTo step m')
    (hm : ∃ rank : Int, m.position = rank) : ∃ rank : Int, m'.position = rank := by
  obtain ⟨rank, hrank⟩ := hm
  obtain ⟨ranks, hranks⟩ := h.position
  exact ⟨rank + ranks, by rw [hranks, hrank, Int.cast_add]⟩

namespace Markers

/-- The markers in ascending order. -/
def toList (m : Markers Rat) : List (Marker Rat) :=
  [m.lowest, m.lower, m.middle, m.upper, m.highest]

/-- How far the desired ranks of the markers move on with every sample. -/
def increments (p : Rat) : List Rat := [0, p / 2, p, (1 + p) / 2, 1]

/-- **The markers of a stream** of samples. -/
structure Tracks (m : Markers Rat) (p : Rat) (samples : List Rat) : Prop where
  ordered : m.Ordered
  least : IsLeast {x | x ∈ samples} m.lowest.height
  greatest : IsGreatest {x | x ∈ samples} m.highest.height
  first : m.lowest.position = 1
  last : m.highest.position = samples.length
  whole : ∀ k ∈ m.toList, ∃ rank : Int, k.position = rank
  desired : m.toList.map (·.desired)
    = (increments p).map fun step => 1 + ((samples.length : Rat) - 1) * step

variable {m m' : Markers Rat} {p value : Rat} {samples : List Rat}

theorem setOf_mem_concat (samples : List Rat) (value : Rat) :
    {x | x ∈ samples ++ [value]} = insert value {x | x ∈ samples} := by
  ext x
  simp [or_comm]

/-- **The fifth sample** starts the markers. -/
theorem tracks_first (p : Rat) {a b c d e : Rat} (hperm : [a, b, c, d, e].Perm samples)
    (hordered : [a, b, c, d, e].Pairwise (· ≤ ·)) : (first p a b c d e).Tracks p samples := by
  have hsize : samples.length = 5 := hperm.length_eq.symm
  have hm := ordered_of_pairwise p hordered
  refine ⟨hm, ⟨hperm.mem_iff.mp (by simp [first]), fun x hx => ?_⟩,
    ⟨hperm.mem_iff.mp (by simp [first]), fun x hx => ?_⟩, rfl, ?_, fun k hk => ?_, ?_⟩
  · have hx : x ∈ [a, b, c, d, e] := hperm.mem_iff.mpr hx
    rcases List.mem_cons.mp hx with rfl | hx
    · exact le_rfl
    · exact List.rel_of_pairwise_cons hordered hx
  · have hx : x ∈ [a, b, c, d, e] := hperm.mem_iff.mpr hx
    have hconcat : ([a, b, c, d] ++ [e]).Pairwise (· ≤ ·) := hordered
    rcases List.mem_append.mp (show x ∈ [a, b, c, d] ++ [e] from hx) with hx | hx
    · exact (List.pairwise_append.mp hconcat).2.2 x hx e (List.mem_singleton_self e)
    · exact (List.mem_singleton.mp hx).le
  · rw [hsize]
    rfl
  · simp only [toList, first, List.mem_cons, List.not_mem_nil, or_false] at hk
    rcases hk with rfl | rfl | rfl | rfl | rfl
    · exact ⟨1, by norm_num⟩
    · exact ⟨2, by norm_num⟩
    · exact ⟨3, by norm_num⟩
    · exact ⟨4, by norm_num⟩
    · exact ⟨5, by norm_num⟩
  · rw [hsize]
    simp only [toList, first, increments, List.map_cons, List.map_nil, List.cons.injEq, and_true]
    refine ⟨by ring, ?_, ?_, ?_, ?_⟩
    · push_cast
      ring
    · push_cast
      ring
    · push_cast
      ring
    · push_cast
      ring

/-- **One more sample** keeps the markers those of the stream. -/
theorem Tracks.collects (h : m.Tracks p samples) (hordered : m'.Ordered)
    (hm' : m.Collects p value m') : m'.Tracks p (samples ++ [value]) := by
  have hsize : ((samples ++ [value]).length : Rat) = samples.length + 1 := by
    rw [List.length_append]
    exact Nat.cast_succ _
  refine ⟨hordered, ?_, ?_, ?_, ?_, ?_, ?_⟩
  · rw [setOf_mem_concat, hm'.lowest]
    exact h.least.insert value
  · rw [setOf_mem_concat, hm'.highest]
    exact h.greatest.insert value
  · rw [hm'.lowest]
    exact h.first
  · rw [hm'.highest, hsize, ← h.last]
  · have hwhole := h.whole
    simp only [toList, List.forall_mem_cons] at hwhole ⊢
    obtain ⟨hlowest, hlower, hmiddle, hupper, hhighest, hnil⟩ := hwhole
    refine ⟨?_, hm'.lower.whole hlower, hm'.middle.whole hmiddle, hm'.upper.whole hupper, ?_, hnil⟩
    · rw [hm'.lowest]
      exact hlowest
    · obtain ⟨rank, hrank⟩ := hhighest
      rw [hm'.highest]
      exact ⟨rank + 1, by simp [hrank]⟩
  · have hdesired := h.desired
    simp only [toList, increments, List.map_cons, List.map_nil, List.cons.injEq, and_true]
      at hdesired ⊢
    obtain ⟨hlowest, hlower, hmiddle, hupper, hhighest⟩ := hdesired
    rw [hm'.lowest, hm'.lower.desired, hm'.middle.desired, hm'.upper.desired, hm'.highest, hsize]
    refine ⟨?_, ?_, ?_, ?_, ?_⟩
    · show m.lowest.desired = _
      rw [hlowest]
      ring
    · rw [hlower]
      ring
    · rw [hmiddle]
      ring
    · rw [hupper]
      ring
    · show m.highest.desired + 1 = _
      rw [hhighest]
      ring

end Markers

/-! ## §2. Streams. -/

namespace QuantileEstimator

/-- **An estimator and its stream**: the samples it has taken in since it was built or last
reset. -/
inductive Collected (p : Rat) : QuantileEstimator Extended → List Rat → Prop
  | new {q : QuantileEstimator Extended} (h : QuantileEstimator.new (finite p) = .ok q) :
      Collected p q []
  | collect {q : QuantileEstimator Extended} {samples : List Rat} (h : Collected p q samples)
      (value : Rat) : Collected p (q.collect (finite value)) (samples ++ [value])
  | reset {q : QuantileEstimator Extended} {samples : List Rat} (h : Collected p q samples) :
      Collected p q.reset []

/-- How far an estimator has come on a stream. -/
inductive Follows (p : Rat) (samples : List Rat) : QuantileEstimator Extended → Prop
  | few (h : samples.length < 5) : Follows p samples ⟨finite p, .gathering (samples.map finite)⟩
  | many {m : Markers Rat} (h : 5 ≤ samples.length) (hm : m.Tracks p samples) :
      Follows p samples ⟨finite p, .tracking samples.length m.exact⟩

variable {p : Rat} {q : QuantileEstimator Extended} {samples : List Rat}

/-- **One more sample** is gathered, starts the markers, or moves them. -/
theorem Follows.collect (h : Follows p samples q) (value : Rat) :
    Follows p (samples ++ [value]) (q.collect (finite value)) := by
  have hsize : (samples ++ [value]).length = samples.length + 1 := List.length_append
  cases h with
  | few hfew =>
    rcases Nat.lt_or_eq_of_le (Nat.le_of_lt_succ hfew) with hfew | hfour
    · rw [collect_few p value hfew]
      exact .few (by omega)
    · obtain ⟨a, b, c, d, e, hperm, hpairwise, hcollect⟩ := collect_fifth p value hfour
      have hfive : (samples ++ [value]).length = 5 := by omega
      rw [hcollect, ← hfive]
      exact .many hfive.ge (Markers.tracks_first p hperm hpairwise)
  | many hmany hm =>
    obtain ⟨m', hm', hordered, hcollects⟩ := Markers.collect_exact hm.ordered p value
    show Follows p _ ⟨finite p, .tracking (samples.length + 1) (Markers.collect _ _ _)⟩
    rw [hm', ← hsize]
    exact .many (by omega) (hm.collects hordered hcollects)

/-- **Every estimator follows its stream**, from when it was built or last reset. -/
theorem Collected.follows (h : Collected p q samples) :
    0 < p ∧ p < 1 ∧ Follows p samples q := by
  induction h with
  | new h =>
    obtain ⟨checked, hchecked, rfl⟩ := map_eq_ok_iff.mp h
    obtain ⟨rfl, hlow, hhigh⟩ := ensureInterior_ok hchecked
    rw [Extended.zero_eq, Extended.finite_lt] at hlow
    rw [Extended.one_eq, Extended.finite_lt] at hhigh
    exact ⟨hlow, hhigh, .few (Nat.zero_lt_succ 4)⟩
  | collect _ value ih => exact ⟨ih.1, ih.2.1, ih.2.2.collect value⟩
  | reset _ ih =>
    obtain ⟨hlow, hhigh, hfollows⟩ := ih
    refine ⟨hlow, hhigh, ?_⟩
    cases hfollows with
    | few _ => exact .few (Nat.zero_lt_succ 4)
    | many _ _ => exact .few (Nat.zero_lt_succ 4)

end QuantileEstimator

/-! ## §3. The estimate. -/

/-- **A quantile follows its stream.**  From five samples on the markers are those of the
stream, no further sample makes them divide by zero, and the estimate lies between the
heights of the outer markers.  Before, it is the quantile of the samples. -/
theorem quantile_follows_stream {p : Rat} {q : QuantileEstimator Extended} {samples : List Rat}
    (h : q.Collected p samples) :
    q.count = samples.length
      ∧ (5 ≤ samples.length → ∃ m : Markers Rat, q.progress = .tracking samples.length m.exact
          ∧ m.Tracks p samples
          ∧ (∀ value, ∀ d ∈ (m.exact.unadjusted (finite p) (finite value)).divisors,
              d ≠ finite 0)
          ∧ ∃ y, q.estimate? = some (finite y) ∧ m.lowest.height ≤ y ∧ y ≤ m.highest.height)
      ∧ (0 < samples.length → samples.length < 5 →
          ∃ y, q.estimate? = some (finite y) ∧ IsSampleQuantile samples p y) := by
  obtain ⟨hlow, hhigh, hfollows⟩ := h.follows
  cases hfollows with
  | few hfew =>
    refine ⟨List.length_map _, fun hmany => absurd hfew hmany.not_gt, fun hpos _ => ?_⟩
    exact sampleQuantile?_exact (List.length_pos_iff.mp hpos) hlow.le hhigh.le
  | many hmany hm =>
    refine ⟨rfl, fun _ => ⟨_, rfl, hm, hm.ordered.divisors_unadjusted p, _, rfl,
      hm.ordered.lowest_le_middle, hm.ordered.middle_le_highest⟩, fun _ hfew => ?_⟩
    exact absurd hfew hmany.not_gt

/-- Six samples after a reset, two of them equal: the markers are those of the six. -/
theorem quantile_follows_trial :
    ∃ q : QuantileEstimator Extended, q.Collected (1 / 2) [4, 1, 3, 1, 5, 2] ∧ q.count = 6
      ∧ ∃ m : Markers Rat, q.progress = .tracking 6 m.exact
        ∧ m.Tracks (1 / 2) [4, 1, 3, 1, 5, 2] := by
  have hnew : QuantileEstimator.new (finite (1 / 2))
      = .ok ⟨finite (1 / 2), .gathering []⟩ := by
    have hinterior : (0.0 : Extended) < finite (1 / 2) ∧ finite (1 / 2) < (1.0 : Extended) := by
      norm_num
    unfold QuantileEstimator.new ensureInterior
    rw [if_pos hinterior]
    rfl
  have hearlier := (QuantileEstimator.Collected.new hnew).collect 9
  have hq := (((((hearlier.reset.collect 4).collect 1).collect 3).collect 1).collect 5).collect 2
  obtain ⟨hcount, hmany, _⟩ := quantile_follows_stream hq
  obtain ⟨m, hprogress, htracks, _⟩ := hmany (by decide)
  exact ⟨_, hq, hcount, m, hprogress, htracks⟩

end CapacityControl.Stats
