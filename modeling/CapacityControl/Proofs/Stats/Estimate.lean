/-
  CapacityControl.Proofs.Stats.Estimate
  ─────────────────────────────────────
  ESTIMATES ARE NUMBERS.  Between rational samples an estimator stays rational, the mean
  as well as a quantile on its way from the first samples to the markers, and as soon as
  it has seen a sample it has a rational estimate (`Estimator.Exact.estimate`).
-/
import CapacityControl.Proofs.Result
import CapacityControl.Proofs.Stats.Markers
import CapacityControl.Stats.Estimator

namespace CapacityControl.Stats

open Extended (finite)

section Build

variable {α : Type} [Scalar α]

/-! ## §1. Estimators that are built. -/

namespace Estimator

/-- The probability of a quantile lies between zero and one. -/
def Sound (e : Estimator α) : Prop :=
  ∀ p, e.probability? = some p → (0.0 : α) < p ∧ p < 1.0

theorem sound_mean (state : RunningMean α) : (mean state).Sound := by
  intro p hp
  cases hp

theorem probability?_reset (e : Estimator α) : e.reset.probability? = e.probability? := by
  cases e <;> rfl

theorem probability?_collect (e : Estimator α) (value : α) :
    (e.collect value).probability? = e.probability? := by
  cases e with
  | mean state => rfl
  | quantile state =>
    show some (state.collect value).probability = some state.probability
    unfold QuantileEstimator.collect
    cases state.progress with
    | gathering samples =>
      simp only
      split <;> rfl
    | tracking count markers => rfl

theorem probability?_collectMany (e : Estimator α) (values : List α) :
    (e.collectMany values).probability? = e.probability? := by
  unfold collectMany
  induction values generalizing e with
  | nil => rfl
  | cons value values ih => rw [List.foldl_cons, ih, probability?_collect]

theorem Sound.reset {e : Estimator α} (he : e.Sound) : e.reset.Sound := by
  intro p hp
  rw [probability?_reset] at hp
  exact he p hp

theorem Sound.collectMany {e : Estimator α} (he : e.Sound) (values : List α) :
    (e.collectMany values).Sound := by
  intro p hp
  rw [probability?_collectMany] at hp
  exact he p hp

/-- Every estimator that is built is sound. -/
theorem sound_build {kind : EstimatorKind α} {e : Estimator α} (h : kind.build = .ok e) :
    e.Sound := by
  cases kind with
  | mean =>
    cases h
    exact sound_mean _
  | quantile p =>
    obtain ⟨state, hstate, rfl⟩ := map_eq_ok_iff.mp h
    obtain ⟨checked, hchecked, rfl⟩ := map_eq_ok_iff.mp hstate
    intro q hq
    cases hq
    exact (ensureInterior_ok hchecked).2

/-- An estimator that is built is of the kind, and has nothing to forget. -/
theorem kind_build {kind : EstimatorKind α} {e : Estimator α} (h : kind.build = .ok e) :
    e.kind = kind ∧ e.reset = e := by
  cases kind with
  | mean =>
    cases h
    exact ⟨rfl, rfl⟩
  | quantile p =>
    obtain ⟨q, hq, rfl⟩ := map_eq_ok_iff.mp h
    obtain ⟨checked, hchecked, rfl⟩ := map_eq_ok_iff.mp hq
    obtain ⟨rfl, _⟩ := ensureInterior_ok hchecked
    exact ⟨rfl, rfl⟩

theorem kind_reset (e : Estimator α) : e.reset.kind = e.kind := by
  cases e with
  | mean state => rfl
  | quantile state => rfl

omit [Scalar α] in
theorem kind_of_probability? {e : Estimator α} (h : e.probability? = none) : e.kind = .mean := by
  cases e with
  | mean state => rfl
  | quantile state => cases h

omit [Scalar α] in
theorem kind_eq_of_probability? {e f : Estimator α} (h : e.probability? = f.probability?) :
    e.kind = f.kind := by
  cases e with
  | mean state => exact (kind_of_probability? h.symm).symm
  | quantile state =>
    cases f with
    | mean state' => cases h
    | quantile state' => exact congrArg EstimatorKind.quantile (Option.some.inj h)

/-- Estimators of one kind are the same once they have forgotten every sample. -/
theorem reset_eq_of_kind {e f : Estimator α} (h : e.kind = f.kind) : e.reset = f.reset := by
  cases e with
  | mean state =>
    cases f with
    | mean state' => rfl
    | quantile state' => cases h
  | quantile state =>
    cases f with
    | mean state' => cases h
    | quantile state' =>
      obtain ⟨probability, progress⟩ := state
      cases h
      rfl

theorem reset_reset (e : Estimator α) : e.reset.reset = e.reset :=
  reset_eq_of_kind (kind_reset e)

/-- Samples do not change what is left when they are forgotten. -/
theorem reset_collectMany (e : Estimator α) (values : List α) :
    (e.collectMany values).reset = e.reset :=
  reset_eq_of_kind (kind_eq_of_probability? (probability?_collectMany e values))

/-- A sound estimator that has forgotten every sample is a fresh one of its kind. -/
theorem build_kind {e : Estimator α} (he : e.Sound) : e.kind.build = .ok e.reset := by
  cases e with
  | mean state => rfl
  | quantile state =>
    have hinterior : (0.0 : α) < state.probability ∧ state.probability < 1.0 := he _ rfl
    refine map_eq_ok_iff.mpr ⟨state.reset, map_eq_ok_iff.mpr ⟨state.probability, ?_, rfl⟩, rfl⟩
    exact if_pos hinterior

/-! ## §2. Counts. -/

theorem count_reset (e : Estimator α) : e.reset.count = 0 := by
  cases e with
  | mean state => rfl
  | quantile state => rfl

theorem count_collect (e : Estimator α) (value : α) : (e.collect value).count = e.count + 1 := by
  cases e with
  | mean state => rfl
  | quantile state =>
    show (state.collect value).count = state.count + 1
    obtain ⟨probability, progress⟩ := state
    cases progress with
    | tracking count markers => rfl
    | gathering samples =>
      have hlength : (samples ++ [value]).length = samples.length + 1 := by simp
      -- The fifth sample starts the markers; any other is gathered.
      unfold QuantileEstimator.collect
      dsimp only
      split
      · rename_i hfive _
        exact hfive.symm.trans hlength
      · exact hlength

/-- Every sample counts. -/
theorem count_collectMany (e : Estimator α) (values : List α) :
    (e.collectMany values).count = e.count + values.length := by
  unfold collectMany
  induction values generalizing e with
  | nil => rfl
  | cons value values ih =>
    rw [List.foldl_cons, ih, count_collect, List.length_cons]
    omega

end Estimator

end Build

/-! ## §3. Sample quantiles. -/

/-- Rational samples are sorted as rationals. -/
theorem sorted_exact (samples : List Rat) :
    sorted (samples.map finite) = (samples.mergeSort fun a b => decide (a ≤ b)).map finite := by
  unfold sorted
  refine (List.map_mergeSort fun a _ b _ => ?_).symm
  have hle : Scalar.sortsBefore (finite a) (finite b) = Extended.le (finite a) (finite b) := rfl
  rw [hle, Bool.eq_iff_iff, decide_eq_true_iff]
  exact (Extended.finite_le a b).symm

theorem pairwise_sorted (samples : List Rat) :
    (samples.mergeSort fun a b => decide (a ≤ b)).Pairwise (· ≤ ·) := by
  have h : (samples.mergeSort fun a b => decide (a ≤ b)).Pairwise
      fun a b => decide (a ≤ b) = true := by
    refine List.pairwise_mergeSort (fun a b c hab hbc => ?_) (fun a b => ?_) samples
    · rw [decide_eq_true_iff] at hab hbc ⊢
      exact hab.trans hbc
    · rw [Bool.or_eq_true, decide_eq_true_iff, decide_eq_true_iff]
      exact le_total a b
  exact h.imp fun hab => of_decide_eq_true hab

/-- A rank that does not exceed the last one rounds to a rank of the batch, either way. -/
theorem rank_lt {size : Nat} {rank : Rat} (h : rank ≤ size) :
    rank.floor.toNat < size + 1 ∧ rank.ceil.toNat < size + 1 := by
  have hceil : rank.ceil ≤ (size : Int) := Rat.ceil_le_iff.mpr (by exact_mod_cast h)
  have hfloor : rank.floor < (size : Int) + 1 :=
    Rat.floor_lt_iff.mpr (by push_cast; linarith)
  omega

/-- **The quantile of a batch** of `n` samples, in whatever order they came: in ascending order
it lies at rank `(n - 1) · p`, on the straight line between the ranks next to that. -/
def IsSampleQuantile (samples : List Rat) (p y : Rat) : Prop :=
  ∀ ordered : List Rat, ordered.Perm samples → ordered.Pairwise (· ≤ ·) →
    let rank := ((samples.length : Rat) - 1) * p
    ∃ low high, ordered[rank.floor.toNat]? = some low ∧ ordered[rank.ceil.toNat]? = some high
      ∧ y = low + (rank - rank.floor) * (high - low)

/-- There is but one ascending order. -/
theorem eq_mergeSort_of_pairwise {ordered samples : List Rat} (hperm : ordered.Perm samples)
    (hordered : ordered.Pairwise (· ≤ ·)) :
    ordered = samples.mergeSort fun a b => decide (a ≤ b) :=
  (hperm.trans (List.mergeSort_perm samples _).symm).eq_of_pairwise
    (fun _ _ _ _ => le_antisymm) hordered (pairwise_sorted samples)

/-- **Every batch of rationals has a quantile** at any probability of the unit interval: both
ranks next to it lie within the batch. -/
theorem sampleQuantile?_exact {samples : List Rat} (hne : samples ≠ []) {p : Rat} (h0 : 0 ≤ p)
    (h1 : p ≤ 1) : ∃ y, sampleQuantile? (samples.map finite) (finite p) = some (finite y)
      ∧ IsSampleQuantile samples p y := by
  have hunit : Scalar.inUnit (finite p) = true := by
    simp [Scalar.inUnit, h0, h1]
  have hempty : ((samples.map finite).isEmpty || !Scalar.inUnit (finite p)) = false := by
    rw [hunit, List.isEmpty_map, Bool.not_true, Bool.or_false, List.isEmpty_eq_false_iff]
    exact hne
  obtain ⟨sorts, hsorts⟩ : ∃ sorts, sorts = samples.mergeSort fun a b => decide (a ≤ b) := ⟨_, rfl⟩
  have hsize : sorts.length = samples.length := by
    rw [hsorts]
    exact List.length_mergeSort samples
  have hpos : 0 < sorts.length := by
    rw [hsize]
    exact List.length_pos_iff.mpr hne
  obtain ⟨rank, hrank⟩ : ∃ rank, rank = ((sorts.length - 1 : Nat) : Rat) * p := ⟨_, rfl⟩
  have hrank_le : rank ≤ ((sorts.length - 1 : Nat) : Rat) :=
    hrank ▸ mul_le_of_le_one_right (Nat.cast_nonneg _) h1
  have hrank_nonneg : 0 ≤ rank := hrank ▸ mul_nonneg (Nat.cast_nonneg _) h0
  have hfloor : ((rank.floor.toNat : Nat) : Rat) = rank.floor := by
    have hnonneg : (0 : Int) ≤ rank.floor := Rat.le_floor_iff.mpr (by exact_mod_cast hrank_nonneg)
    exact_mod_cast Int.toNat_of_nonneg hnonneg
  obtain ⟨hlow, hhigh⟩ := rank_lt hrank_le
  rw [Nat.sub_add_cancel hpos] at hlow hhigh
  refine ⟨sorts[rank.floor.toNat] + (rank - rank.floor)
    * (sorts[rank.ceil.toNat] - sorts[rank.floor.toNat]), ?_, ?_⟩
  · unfold sampleQuantile?
    rw [hempty, if_neg Bool.false_ne_true, sorted_exact, ← hsorts]
    simp only [List.length_map, Extended.ofNat_eq, Extended.finite_mul, ← hrank,
      Extended.floor_finite, Extended.ceil_finite, List.getElem?_map,
      List.getElem?_eq_getElem hlow, List.getElem?_eq_getElem hhigh, Option.map_some,
      Extended.finite_sub, Extended.finite_add, hfloor]
  · intro ordered hperm hordered
    have hsame : ((samples.length : Rat) - 1) * p = rank := by
      rw [hrank, ← hsize, Nat.cast_sub hpos, Nat.cast_one]
    simp only [hsame]
    rw [eq_mergeSort_of_pairwise hperm hordered, ← hsorts]
    exact ⟨_, _, List.getElem?_eq_getElem hlow, List.getElem?_eq_getElem hhigh, rfl⟩

/-! ## §4. Estimators between rational samples. -/

/-- How far an estimation between rational samples can have come. -/
inductive Progress.Exact : Progress Extended → Prop
  | gathering (samples : List Rat) (h : samples.length < 5) : Exact (.gathering (samples.map finite))
  | tracking (count : Nat) {m : Markers Rat} (h : m.Ordered) : Exact (.tracking count m.exact)

/-- An estimator between rational samples. -/
inductive Estimator.Exact : Estimator Extended → Prop
  | mean (count : Nat) (value : Rat) : Exact (.mean ⟨count, finite value⟩)
  | quantile {p : Rat} (h0 : 0 < p) (h1 : p < 1) {progress : Progress Extended}
      (h : progress.Exact) : Exact (.quantile ⟨finite p, progress⟩)

theorem eq_of_length_five {l : List Rat} (h : l.length = 5) :
    ∃ a b c d e, l = [a, b, c, d, e] :=
  match l, h with
  | [a, b, c, d, e], _ => ⟨a, b, c, d, e, rfl⟩

namespace QuantileEstimator

theorem map_concat (samples : List Rat) (value : Rat) :
    samples.map finite ++ [finite value] = (samples ++ [value]).map finite := by
  rw [List.map_append]
  rfl

/-- The first samples are kept as they come. -/
theorem collect_few (p value : Rat) {samples : List Rat} (h : samples.length < 4) :
    (⟨finite p, .gathering (samples.map finite)⟩ : QuantileEstimator Extended).collect
        (finite value) = ⟨finite p, .gathering ((samples ++ [value]).map finite)⟩ := by
  have hlength : (samples ++ [value]).length = samples.length + 1 := List.length_append
  unfold collect
  simp only [map_concat, List.length_map]
  rw [hlength]
  split
  · omega
  · rfl

/-- **The fifth sample**: sorted, the five are the heights of the first markers. -/
theorem collect_fifth (p value : Rat) {samples : List Rat} (h : samples.length = 4) :
    ∃ a b c d e, [a, b, c, d, e].Perm (samples ++ [value]) ∧ [a, b, c, d, e].Pairwise (· ≤ ·)
      ∧ (⟨finite p, .gathering (samples.map finite)⟩ : QuantileEstimator Extended).collect
          (finite value) = ⟨finite p, .tracking 5 (Markers.first p a b c d e).exact⟩ := by
  have hlength : (samples ++ [value]).length = 5 := by
    rw [List.length_append, h]
    rfl
  have hperm := List.mergeSort_perm (samples ++ [value]) fun a b => decide (a ≤ b)
  have hpairwise := pairwise_sorted (samples ++ [value])
  obtain ⟨a, b, c, d, e, hordered⟩ := eq_of_length_five (hperm.length_eq.trans hlength)
  rw [hordered] at hperm hpairwise
  refine ⟨a, b, c, d, e, hperm, hpairwise, ?_⟩
  unfold collect
  simp only [map_concat, List.length_map]
  rw [hlength, sorted_exact, hordered, ← Markers.start_exact]
  rfl

end QuantileEstimator

/-- Five samples in ascending order are markers in order. -/
theorem Markers.ordered_of_pairwise (p : Rat) {a b c d e : Rat}
    (h : [a, b, c, d, e].Pairwise (· ≤ ·)) : (Markers.first p a b c d e).Ordered := by
  simp only [List.pairwise_cons, List.mem_cons, List.not_mem_nil, or_false] at h
  obtain ⟨ha, hb, hc, hd, _⟩ := h
  exact ordered_first p (ha b (Or.inl rfl)) (hb c (Or.inl rfl)) (hc d (Or.inl rfl)) (hd e rfl)

namespace Estimator

/-- **One more rational sample.** -/
theorem Exact.collect {e : Estimator Extended} (he : e.Exact) (value : Rat) :
    (e.collect (finite value)).Exact := by
  cases he with
  | mean count before =>
    have hcount : ((count + 1 : Nat) : Rat) ≠ 0 := by
      exact_mod_cast Nat.succ_ne_zero count
    show Exact (.mean (RunningMean.collect _ _))
    unfold RunningMean.collect
    simp only [Extended.finite_sub, Extended.ofNat_eq, Extended.finite_div _ _ hcount,
      Extended.finite_add]
    exact .mean _ _
  | quantile h0 h1 hprogress =>
    cases hprogress with
    | gathering samples hfew =>
      show Exact (.quantile (QuantileEstimator.collect _ _))
      rcases Nat.lt_or_eq_of_le (Nat.le_of_lt_succ hfew) with hfew | hfour
      · rw [QuantileEstimator.collect_few _ value hfew]
        refine .quantile h0 h1 (.gathering _ ?_)
        rw [List.length_append]
        exact Nat.succ_lt_succ hfew
      · obtain ⟨a, b, c, d, e, _, hpairwise, hcollect⟩ :=
          QuantileEstimator.collect_fifth _ value hfour
        rw [hcollect]
        exact .quantile h0 h1 (.tracking 5 (Markers.ordered_of_pairwise _ hpairwise))
    | tracking count hordered =>
      obtain ⟨m', hm', hordered', _⟩ := Markers.collect_exact hordered _ value
      show Exact (.quantile ⟨_, .tracking (count + 1) (Markers.collect _ _ _)⟩)
      rw [hm']
      exact .quantile h0 h1 (.tracking _ hordered')

theorem Exact.collectMany {e : Estimator Extended} (he : e.Exact) {values : List Extended}
    (hvalues : ∀ v ∈ values, Scalar.isFinite v = true) : (e.collectMany values).Exact := by
  unfold Estimator.collectMany
  induction values generalizing e with
  | nil => exact he
  | cons v values ih =>
    obtain ⟨q, rfl⟩ := (Extended.isFinite_iff v).mp (hvalues v List.mem_cons_self)
    exact ih (he.collect q) fun w hw => hvalues w (List.mem_cons_of_mem _ hw)

theorem Exact.reset {e : Estimator Extended} (he : e.Exact) : e.reset.Exact := by
  cases he with
  | mean count value =>
    show Exact (.mean ⟨0, 0.0⟩)
    rw [Extended.zero_eq]
    exact .mean 0 0
  | quantile h0 h1 hprogress => exact .quantile h0 h1 (.gathering [] (Nat.zero_lt_succ 4))

/-- A probability between zero and one is rational. -/
theorem probability_exact {p : Extended} (h0 : (0.0 : Extended) < p) (h1 : p < (1.0 : Extended)) :
    ∃ q : Rat, p = finite q ∧ 0 < q ∧ q < 1 := by
  rw [Extended.zero_eq] at h0
  rw [Extended.one_eq] at h1
  obtain ⟨q, rfl, _, _⟩ := Extended.exists_finite_of_le (Extended.le_of_lt h0) (Extended.le_of_lt h1)
  exact ⟨q, rfl, (Extended.finite_lt 0 q).mp h0, (Extended.finite_lt q 1).mp h1⟩

/-- A sound estimator begins with rational values after every reset. -/
theorem Sound.exact_reset {e : Estimator Extended} (he : e.Sound) : e.reset.Exact := by
  cases e with
  | mean state =>
    show Exact (.mean ⟨0, 0.0⟩)
    rw [Extended.zero_eq]
    exact .mean 0 0
  | quantile state =>
    obtain ⟨hlow, hhigh⟩ := he state.probability rfl
    obtain ⟨q, hq, h0, h1⟩ := probability_exact hlow hhigh
    show Exact (.quantile ⟨state.probability, .gathering []⟩)
    rw [hq]
    exact .quantile h0 h1 (.gathering [] (Nat.zero_lt_succ 4))

/-- **After the first sample there is a rational estimate.** -/
theorem Exact.estimate {e : Estimator Extended} (he : e.Exact) (hcount : 0 < e.count) :
    ∃ y, e.estimate? = some (finite y) := by
  cases he with
  | mean count value => exact ⟨value, if_pos hcount⟩
  | quantile h0 h1 hprogress =>
    cases hprogress with
    | gathering samples hfew =>
      have hne : samples ≠ [] := by
        rintro rfl
        exact absurd hcount (lt_irrefl 0)
      obtain ⟨y, hy, _⟩ := sampleQuantile?_exact hne h0.le h1.le
      exact ⟨y, hy⟩
    | tracking count hordered => exact ⟨_, rfl⟩

end Estimator

end CapacityControl.Stats
