/-
  CapacityControl.Proofs.Stats.Equivariance
  ─────────────────────────────────────────
  A QUANTILE ON ANOTHER SCALE, from another origin.  An estimator is determined by its stream
  (`Collected.eq_fed`), and the estimator over a rescaled stream is the rescaled estimator
  over the stream (`fed_rescaled`): the markers stand at the same ranks and are to stand at
  the same ranks, and heights and estimate follow the samples.  Between rationals this is
  `quantile_equivariant`.
-/
import CapacityControl.Proofs.Stats.Rescaling
import CapacityControl.Proofs.Stats.Stream
import Mathlib.Data.List.Induction

namespace CapacityControl.Stats

open Extended (finite)

/-! ## §1. The estimator over a stream. -/

section Ranks

variable {α : Type}

/-- Where the markers stand, and where they should. -/
def Markers.ranks (m : Markers α) : List (α × α) :=
  [m.lowest, m.lower, m.middle, m.upper, m.highest].map fun k => (k.position, k.desired)

/-- Where the markers of an estimator stand, and where they should; before there are any, where
they are going to start. -/
def QuantileEstimator.ranks [Scalar α] (q : QuantileEstimator α) : List (α × α) :=
  match q.progress with
  | .gathering _ => (Markers.start q.probability 0.0 0.0 0.0 0.0 0.0).ranks
  | .tracking _ markers => markers.ranks

end Ranks

namespace QuantileEstimator

section Fed

variable {α : Type} [Scalar α]

/-- The estimator of the quantile at `p` that has taken in one sample after the other. -/
def fed (p : α) (samples : List α) : QuantileEstimator α :=
  samples.foldl collect ⟨p, .gathering []⟩

theorem fed_concat (p : α) (samples : List α) (value : α) :
    fed p (samples ++ [value]) = (fed p samples).collect value := by
  unfold fed
  rw [List.foldl_append]
  rfl

variable (u : Rescaling α)

theorem foldl_collect_rescaled (q : QuantileEstimator α) (samples : List α) :
    (samples.map u.value).foldl collect (q.rescaled u.value)
      = (samples.foldl collect q).rescaled u.value := by
  induction samples generalizing q with
  | nil => rfl
  | cons value samples ih =>
    rw [List.map_cons, List.foldl_cons, List.foldl_cons, collect_rescaled]
    exact ih _

/-- **The estimator over a rescaled stream** is the rescaled estimator over the stream. -/
theorem fed_rescaled (p : α) (samples : List α) :
    fed p (samples.map u.value) = (fed p samples).rescaled u.value :=
  foldl_collect_rescaled u ⟨p, .gathering []⟩ samples

/-- The ranks are on no scale. -/
theorem ranks_rescaled (f : α → α) (q : QuantileEstimator α) : (q.rescaled f).ranks = q.ranks := by
  obtain ⟨p, progress⟩ := q
  cases progress with
  | gathering samples => rfl
  | tracking count markers => rfl

end Fed

/-- **An estimator is determined by its stream**, however often it has been reset before. -/
theorem Collected.eq_fed {p : Rat} {q : QuantileEstimator Extended} {samples : List Rat}
    (h : q.Collected p samples) : q = fed (finite p) (samples.map finite) := by
  induction h with
  | new h =>
    obtain ⟨checked, hchecked, rfl⟩ := map_eq_ok_iff.mp h
    obtain ⟨rfl, _⟩ := ensureInterior_ok hchecked
    rfl
  | collect _ value ih => rw [← map_concat, fed_concat, ← ih]
  | reset h _ =>
    obtain ⟨_, _, hfollows⟩ := h.follows
    cases hfollows with
    | few _ => rfl
    | many _ _ => rfl

/-- Every probability between zero and one is accepted. -/
theorem new_of_interior {p : Rat} (h0 : 0 < p) (h1 : p < 1) :
    QuantileEstimator.new (finite p) = .ok (fed (finite p) []) :=
  map_eq_ok_iff.mpr ⟨_, Extended.ensureInterior_finite h0 h1 _, rfl⟩

/-- Every stream of rationals can be taken in there. -/
theorem collected_fed {p : Rat} (h0 : 0 < p) (h1 : p < 1) (samples : List Rat) :
    (fed (finite p) (samples.map finite)).Collected p samples := by
  induction samples using List.reverseRecOn with
  | nil => exact .new (new_of_interior h0 h1)
  | append_singleton samples value ih =>
    rw [← map_concat, fed_concat]
    exact ih.collect value

end QuantileEstimator

/-! ## §2. Between rationals. -/

section Affine

variable {a b p : Rat}

/-- Rational heights are rescaled as rationals. -/
theorem Markers.exact_rescaled {f : Extended → Extended} {g : Rat → Rat}
    (hf : ∀ x, f (finite x) = finite (g x)) (m : Markers Rat) :
    m.exact.rescaled f = (m.rescaled g).exact := by
  simp only [rescaled, Marker.rescaled, exact, Marker.exact, hf]

namespace QuantileEstimator

/-- Whoever follows a stream has an estimate from the first sample on. -/
theorem Follows.estimate {q : QuantileEstimator Extended} {samples : List Rat}
    (h : Follows p samples q) (hlow : 0 < p) (hhigh : p < 1) (hsome : samples ≠ []) :
    ∃ y, q.estimate? = some (finite y) := by
  cases h with
  | few _ =>
    obtain ⟨y, hy, _⟩ := sampleQuantile?_exact hsome hlow.le hhigh.le
    exact ⟨y, hy⟩
  | many _ _ => exact ⟨_, rfl⟩

/-- **Streams on two scales** with two origins.  The markers stand at the same ranks, and are to
stand at the same ranks; from five samples on each height is that on the other scale; and from the
first sample on the estimate is. -/
theorem quantile_equivariant (ha : 0 < a) {q q' : QuantileEstimator Extended} {samples : List Rat}
    (h : q.Collected p samples) (h' : q'.Collected p (samples.map fun x => a * x + b)) :
    q'.ranks = q.ranks
      ∧ (5 ≤ samples.length → ∃ m m' : Markers Rat,
          q.progress = .tracking samples.length m.exact
            ∧ q'.progress = .tracking samples.length m'.exact
            ∧ m'.toList.map (·.height) = m.toList.map fun k => a * k.height + b)
      ∧ (samples ≠ [] → ∃ y, q.estimate? = some (finite y)
          ∧ q'.estimate? = some (finite (a * y + b))) := by
  let u := Rescaling.affine a ha b
  have hmap : (samples.map fun x => a * x + b).map finite = (samples.map finite).map u.value := by
    rw [List.map_map, List.map_map]
    rfl
  have hrescaled : q' = q.rescaled u.value := by
    rw [h'.eq_fed, hmap, fed_rescaled, ← h.eq_fed]
  obtain ⟨hlow, hhigh, hfollows⟩ := h.follows
  rw [hrescaled]
  refine ⟨ranks_rescaled u.value q, fun hmany => ?_, fun hsome => ?_⟩
  · cases hfollows with
    | few hfew => exact absurd hfew hmany.not_gt
    | @many m _ _ =>
      refine ⟨m, m.rescaled fun x => a * x + b, rfl, ?_, rfl⟩
      exact congrArg (Progress.tracking _)
        (Markers.exact_rescaled (Rescaling.affine_finite ha b) m)
  · obtain ⟨y, hy⟩ := hfollows.estimate hlow hhigh hsome
    refine ⟨y, hy, ?_⟩
    rw [estimate?_rescaled, hy]
    rfl

/-- Six samples, two of them equal, on twice the scale and from another origin. -/
theorem quantile_equivariant_doubled : ∃ q q' : QuantileEstimator Extended,
    q.Collected (1 / 2) [4, 1, 3, 1, 5, 2]
      ∧ q'.Collected (1 / 2) ([4, 1, 3, 1, 5, 2].map fun x => 2 * x + -3)
      ∧ q'.ranks = q.ranks
      ∧ ∃ y, q.estimate? = some (finite y) ∧ q'.estimate? = some (finite (2 * y + -3)) := by
  have hq := collected_fed one_half_pos one_half_lt_one [4, 1, 3, 1, 5, 2]
  have hq' := collected_fed one_half_pos one_half_lt_one
    ([4, 1, 3, 1, 5, 2].map fun x => 2 * x + -3)
  obtain ⟨hranks, _, hestimate⟩ := quantile_equivariant two_pos hq hq'
  exact ⟨_, _, hq, hq', hranks, hestimate (List.cons_ne_nil _ _)⟩

end QuantileEstimator

end Affine

end CapacityControl.Stats
