/-
  CapacityControl.Proofs.Stats.Quantile
  ─────────────────────────────────────
  THE SAMPLE QUANTILE IS A QUANTILE FUNCTION, exactly.  It interpolates between the order
  statistics of the batch (`sampleQuantile?_eq_quantile`), so whatever is monotone in these
  is monotone in the quantile.  Interpolation is monotone across the ranks as it is between two
  of them (`interpolated_mono`).  An order statistic is found by counting the samples below it
  (`getElem_le_iff_lt_countP`), which no order has influence on and which greater samples
  lower (`orderStatistic_le`).  Together: `sampleQuantile?_lawful`.
-/
import CapacityControl.Proofs.Stats.Estimate
import Mathlib.Data.Rat.Floor
import Mathlib.Order.Bounds.Basic

namespace CapacityControl.Stats

open Extended (finite)

/-! ## §1. Interpolation. -/

/-- The value at a rank between two whole ones, on the straight line between theirs. -/
def interpolated (f : Nat → Rat) (rank : Rat) : Rat :=
  f rank.floor.toNat + (rank - rank.floor) * (f rank.ceil.toNat - f rank.floor.toNat)

section Interpolation

variable {f g : Nat → Rat} {rank rank' : Rat}

theorem exists_cell (h : 0 ≤ rank) : ∃ (k : Nat) (t : Rat), rank = k + t ∧ 0 ≤ t ∧ t < 1 :=
  ⟨⌊rank⌋₊, rank - ⌊rank⌋₊, by ring, sub_nonneg.mpr (Nat.floor_le h),
    sub_lt_iff_lt_add'.mpr (Nat.lt_floor_add_one rank)⟩

/-- **Inside a cell** the rank above is the next one; at its beginning it has no weight. -/
theorem interpolated_add (f : Nat → Rat) (k : Nat) {t : Rat} (h0 : 0 ≤ t) (h1 : t < 1) :
    interpolated f (k + t) = f k + t * (f (k + 1) - f k) := by
  have hfloor : ((k : Rat) + t).floor = (k : Int) := by
    have hlow : (k : Int) ≤ ((k : Rat) + t).floor := Rat.le_floor_iff.mpr (by push_cast; linarith)
    have hhigh : ((k : Rat) + t).floor < (k : Int) + 1 :=
      Rat.floor_lt_iff.mpr (by push_cast; linarith)
    omega
  unfold interpolated
  rw [hfloor, Int.toNat_natCast, Int.cast_natCast, add_sub_cancel_left]
  -- At a whole rank both roundings agree, and the part beyond it is zero anyway.
  rcases h0.eq_or_lt with rfl | hpos
  · rw [zero_mul, zero_mul]
  · have hceil : ((k : Rat) + t).ceil = ((k + 1 : Nat) : Int) := by
      have hlow : ((k : Rat) + t).ceil ≤ (k : Int) + 1 :=
        Rat.ceil_le_iff.mpr (by push_cast; linarith)
      have hhigh : (k : Int) < ((k : Rat) + t).ceil := Rat.lt_ceil_iff.mpr (by push_cast; linarith)
      omega
    rw [hceil, Int.toNat_natCast]

theorem interpolated_natCast (f : Nat → Rat) (k : Nat) : interpolated f k = f k := by
  have h := interpolated_add f k le_rfl one_pos
  rwa [add_zero, zero_mul, add_zero] at h

/-- **Interpolation is monotone in the rank**, inside a cell and from one to another. -/
theorem interpolated_mono (hf : Monotone f) (h0 : 0 ≤ rank) (hle : rank ≤ rank') :
    interpolated f rank ≤ interpolated f rank' := by
  obtain ⟨k, t, rfl, ht, ht'⟩ := exists_cell h0
  obtain ⟨j, u, rfl, hu, hu'⟩ := exists_cell (h0.trans hle)
  have hkj : k ≤ j := by
    have hlt : (k : Rat) < j + 1 := by linarith
    exact_mod_cast Nat.lt_succ_iff.mp (by exact_mod_cast hlt)
  have hk : 0 ≤ f (k + 1) - f k := sub_nonneg.mpr (hf k.le_succ)
  have hj : 0 ≤ f (j + 1) - f j := sub_nonneg.mpr (hf j.le_succ)
  rw [interpolated_add f k ht ht', interpolated_add f j hu hu']
  rcases hkj.eq_or_lt with rfl | hlt
  · have htu : t ≤ u := by linarith
    exact add_le_add_right (mul_le_mul_of_nonneg_right htu hk) (f k)
  · -- The cells meet at the end of the lower one, or are further apart.
    calc f k + t * (f (k + 1) - f k) ≤ f k + 1 * (f (k + 1) - f k) :=
          add_le_add_right (mul_le_mul_of_nonneg_right ht'.le hk) (f k)
      _ = f (k + 1) := by ring
      _ ≤ f j := hf hlt
      _ ≤ f j + u * (f (j + 1) - f j) := le_add_of_nonneg_right (mul_nonneg hu hj)

/-- Greater values at the whole ranks make greater ones between them. -/
theorem interpolated_le (hfg : ∀ k, f k ≤ g k) (h0 : 0 ≤ rank) :
    interpolated f rank ≤ interpolated g rank := by
  obtain ⟨k, t, rfl, ht, ht'⟩ := exists_cell h0
  rw [interpolated_add f k ht ht', interpolated_add g k ht ht']
  have hlower : (1 - t) * f k ≤ (1 - t) * g k :=
    mul_le_mul_of_nonneg_left (hfg k) (by linarith)
  have hupper : t * f (k + 1) ≤ t * g (k + 1) := mul_le_mul_of_nonneg_left (hfg (k + 1)) ht
  linarith

end Interpolation

/-! ## §2. Order statistics. -/

/-- The sample with `k` samples before it in ascending order, and the greatest one from the last
rank on. -/
def orderStatistic (samples : List Rat) (k : Nat) : Rat :=
  (samples.mergeSort fun a b => decide (a ≤ b)).getD (min k (samples.length - 1)) 0

section OrderStatistics

variable {samples samples' : List Rat}

theorem getElem?_mergeSort (hsome : samples ≠ []) (k : Nat) :
    (samples.mergeSort fun a b => decide (a ≤ b))[min k (samples.length - 1)]?
      = some (orderStatistic samples k) := by
  have hpos := List.length_pos_of_ne_nil hsome
  have hk : min k (samples.length - 1)
      < (samples.mergeSort fun a b => decide (a ≤ b)).length := by
    rw [List.length_mergeSort]
    omega
  unfold orderStatistic
  rw [List.getD_eq_getElem?_getD, List.getElem?_eq_getElem hk]
  rfl

/-- In whichever way the samples are brought into ascending order, the order statistics stand at
their ranks. -/
theorem getElem?_ordered {ordered : List Rat} (hperm : ordered.Perm samples)
    (hordered : ordered.Pairwise (· ≤ ·)) {k : Nat} (hk : k < samples.length) :
    ordered[k]? = some (orderStatistic samples k) := by
  have hsome : samples ≠ [] := List.ne_nil_of_length_pos (Nat.zero_lt_of_lt hk)
  rw [eq_mergeSort_of_pairwise hperm hordered, ← getElem?_mergeSort hsome,
    Nat.min_eq_left (Nat.le_sub_one_of_lt hk)]

theorem orderStatistic_mem (hsome : samples ≠ []) (k : Nat) : orderStatistic samples k ∈ samples :=
  (List.mergeSort_perm samples _).mem_iff.mp
    (List.mem_of_getElem? (getElem?_mergeSort hsome k))

/-- No order of the samples has influence on it. -/
theorem orderStatistic_perm (h : samples.Perm samples') :
    orderStatistic samples = orderStatistic samples' := by
  have hsorted : (samples.mergeSort fun a b => decide (a ≤ b))
      = samples'.mergeSort fun a b => decide (a ≤ b) :=
    eq_mergeSort_of_pairwise ((List.mergeSort_perm samples _).trans h) (pairwise_sorted samples)
  unfold orderStatistic
  rw [hsorted, h.length_eq]

/-- **Counting**: in ascending order a value is reached as long as there are samples up to it. -/
theorem getElem_le_iff_lt_countP {ordered : List Rat} (h : ordered.Pairwise (· ≤ ·)) {k : Nat}
    {y : Rat} (hy : ordered[k]? = some y) (x : Rat) :
    y ≤ x ↔ k < ordered.countP fun z => decide (z ≤ x) := by
  induction ordered generalizing k with
  | nil => simp at hy
  | cons a ordered ih =>
    obtain ⟨ha, hrest⟩ := List.pairwise_cons.mp h
    by_cases hax : a ≤ x
    · rw [List.countP_cons_of_pos (by simpa using hax)]
      cases k with
      | zero =>
        cases hy
        exact iff_of_true hax (Nat.succ_pos _)
      | succ k => exact (ih hrest hy).trans Nat.succ_lt_succ_iff.symm
    · -- All that follows is greater still.
      have hall : ∀ z ∈ a :: ordered, ¬z ≤ x := by
        intro z hz
        rcases List.mem_cons.mp hz with rfl | hz
        · exact hax
        · exact fun hzx => hax ((ha z hz).trans hzx)
      have hnone : (a :: ordered).countP (fun z => decide (z ≤ x)) = 0 :=
        List.countP_eq_zero.mpr fun z hz => by simpa using hall z hz
      rw [hnone]
      exact iff_of_false (hall y (List.mem_of_getElem? hy)) (Nat.not_lt_zero k)

theorem orderStatistic_le_iff (hsome : samples ≠ []) (k : Nat) (x : Rat) :
    orderStatistic samples k ≤ x
      ↔ min k (samples.length - 1) < samples.countP fun z => decide (z ≤ x) := by
  rw [getElem_le_iff_lt_countP (pairwise_sorted samples) (getElem?_mergeSort hsome k),
    (List.mergeSort_perm samples _).countP_eq]

/-- They ascend. -/
theorem orderStatistic_mono (hsome : samples ≠ []) : Monotone (orderStatistic samples) := by
  intro k j hkj
  -- More samples are counted up to the later one than there are before it.
  rw [orderStatistic_le_iff hsome]
  have hj := (orderStatistic_le_iff hsome j (orderStatistic samples j)).mp le_rfl
  omega

/-- **Greater samples have greater order statistics**, whichever way they are sorted. -/
theorem orderStatistic_le (hsome : samples ≠ []) (h : List.Forall₂ (· ≤ ·) samples samples')
    (k : Nat) : orderStatistic samples k ≤ orderStatistic samples' k := by
  have hlength := h.length_eq
  have hsome' : samples' ≠ [] := by
    rw [← List.length_pos_iff, ← hlength]
    exact List.length_pos_of_ne_nil hsome
  have hcount : ∀ x, samples'.countP (fun z => decide (z ≤ x))
      ≤ samples.countP fun z => decide (z ≤ x) := by
    intro x
    clear hlength hsome hsome'
    -- Pair by pair: where the greater one is counted, the other one is.
    induction h with
    | nil => exact le_rfl
    | @cons a b _ _ hab _ ih =>
      by_cases hb : b ≤ x
      · rw [List.countP_cons_of_pos (by simpa using hb),
          List.countP_cons_of_pos (by simpa using hab.trans hb)]
        exact Nat.succ_le_succ ih
      · rw [List.countP_cons_of_neg (by simpa using hb)]
        exact ih.trans (List.sublist_cons_self _ _).countP_le
  rw [orderStatistic_le_iff hsome]
  have hk := (orderStatistic_le_iff hsome' k (orderStatistic samples' k)).mp le_rfl
  rw [← hlength] at hk
  exact hk.trans_le (hcount _)

theorem isLeast_orderStatistic (hsome : samples ≠ []) :
    IsLeast {x | x ∈ samples} (orderStatistic samples 0) := by
  refine ⟨orderStatistic_mem hsome 0, fun x hx => ?_⟩
  rw [orderStatistic_le_iff hsome, Nat.zero_min, List.countP_pos_iff]
  exact ⟨x, hx, decide_eq_true le_rfl⟩

theorem isGreatest_orderStatistic (hsome : samples ≠ []) :
    IsGreatest {x | x ∈ samples} (orderStatistic samples (samples.length - 1)) := by
  refine ⟨orderStatistic_mem hsome _, fun x hx => ?_⟩
  -- All the samples are counted up to this one.
  have hlast := (orderStatistic_le_iff hsome _ (orderStatistic samples (samples.length - 1))).mp le_rfl
  have hpos := List.length_pos_of_ne_nil hsome
  have hall : samples.countP (fun z => decide (z ≤ orderStatistic samples (samples.length - 1)))
      = samples.length := by
    refine le_antisymm List.countP_le_length ?_
    omega
  simpa using List.countP_eq_length.mp hall x hx

end OrderStatistics

/-! ## §3. The quantile. -/

/-- The rank of the quantile in the batch. -/
def quantileRank (samples : List Rat) (p : Rat) : Rat := ((samples.length : Rat) - 1) * p

/-- **The quantile** that lies at that rank. -/
def quantile (samples : List Rat) (p : Rat) : Rat :=
  interpolated (orderStatistic samples) (quantileRank samples p)

section Quantile

variable {samples samples' : List Rat} {p p' : Rat}

theorem sampleQuantile?_eq_quantile (hsome : samples ≠ []) (h0 : 0 ≤ p) (h1 : p ≤ 1) :
    sampleQuantile? (samples.map finite) (finite p) = some (finite (quantile samples p)) := by
  obtain ⟨y, hy, hquantile⟩ := sampleQuantile?_exact hsome h0 h1
  have hperm := List.mergeSort_perm samples fun a b => decide (a ≤ b)
  have hsorted := pairwise_sorted samples
  obtain ⟨low, high, hlow, hhigh, rfl⟩ := hquantile _ hperm hsorted
  have hstatistic : ∀ {k : Nat} {z : Rat},
      (samples.mergeSort fun a b => decide (a ≤ b))[k]? = some z → orderStatistic samples k = z := by
    intro k z hz
    obtain ⟨hk, _⟩ := List.getElem?_eq_some_iff.mp hz
    rw [List.length_mergeSort] at hk
    exact Option.some.inj ((getElem?_ordered hperm hsorted hk).symm.trans hz)
  rw [hy]
  unfold quantile interpolated quantileRank
  rw [hstatistic hlow, hstatistic hhigh]

/-- There is no quantile of no samples, or at what is no probability. -/
theorem sampleQuantile?_eq_none_iff (samples : List Rat) (p : Extended) :
    sampleQuantile? (samples.map finite) p = none ↔ samples = [] ∨ ¬(0.0 ≤ p ∧ p ≤ 1.0) := by
  have hunit : Scalar.inUnit p = true ↔ 0.0 ≤ p ∧ p ≤ 1.0 := by
    unfold Scalar.inUnit
    rw [Bool.and_eq_true, decide_eq_true_iff, decide_eq_true_iff]
  by_cases hsome : samples = []
  · subst hsome
    exact iff_of_true rfl (Or.inl rfl)
  · by_cases hp : Scalar.inUnit p = true
    · refine iff_of_false ?_ (not_or_intro hsome (not_not.mpr (hunit.mp hp)))
      obtain ⟨q, rfl, h0, h1⟩ := Extended.exists_finite_of_inUnit hp
      rw [sampleQuantile?_eq_quantile hsome h0 h1]
      exact Option.some_ne_none _
    · refine iff_of_true ?_ (Or.inr (mt hunit.mpr hp))
      unfold sampleQuantile?
      rw [if_pos (by simp [hp])]

section Ranks

variable (hsome : samples ≠ [])

include hsome

theorem span_nonneg : 0 ≤ (samples.length : Rat) - 1 := by
  have hone : (1 : Rat) ≤ samples.length := by
    exact_mod_cast List.length_pos_of_ne_nil hsome
  exact sub_nonneg.mpr hone

theorem quantileRank_nonneg (h0 : 0 ≤ p) : 0 ≤ quantileRank samples p :=
  mul_nonneg (span_nonneg hsome) h0

theorem quantileRank_mono (hle : p ≤ p') : quantileRank samples p ≤ quantileRank samples p' :=
  mul_le_mul_of_nonneg_left hle (span_nonneg hsome)

/-- The last rank. -/
theorem quantileRank_one : quantileRank samples 1 = ((samples.length - 1 : Nat) : Rat) := by
  rw [quantileRank, mul_one, Nat.cast_sub (List.length_pos_of_ne_nil hsome), Nat.cast_one]

/-- Both ranks next to that of a quantile are ranks of samples. -/
theorem quantileRank_lt (h1 : p ≤ 1) : (quantileRank samples p).floor.toNat < samples.length
    ∧ (quantileRank samples p).ceil.toNat < samples.length := by
  have hlast := quantileRank_mono hsome h1
  rw [quantileRank_one hsome] at hlast
  have hranks := rank_lt hlast
  rwa [Nat.sub_add_cancel (List.length_pos_of_ne_nil hsome)] at hranks

end Ranks

theorem quantile_perm (h : samples.Perm samples') (p : Rat) :
    quantile samples p = quantile samples' p := by
  unfold quantile quantileRank
  rw [orderStatistic_perm h, h.length_eq]

/-- **A greater probability** has a greater quantile. -/
theorem quantile_mono (hsome : samples ≠ []) (h0 : 0 ≤ p) (hle : p ≤ p') :
    quantile samples p ≤ quantile samples p' :=
  interpolated_mono (orderStatistic_mono hsome) (quantileRank_nonneg hsome h0)
    (quantileRank_mono hsome hle)

/-- **Greater samples** have a greater quantile. -/
theorem quantile_le_of_forall₂ (hsome : samples ≠ []) (h : List.Forall₂ (· ≤ ·) samples samples')
    (h0 : 0 ≤ p) : quantile samples p ≤ quantile samples' p := by
  have hrank : quantileRank samples' p = quantileRank samples p := by
    unfold quantileRank
    rw [h.length_eq]
  unfold quantile
  rw [hrank]
  exact interpolated_le (orderStatistic_le hsome h) (quantileRank_nonneg hsome h0)

/-- **At a whole rank** the quantile is the sample there. -/
theorem quantile_of_rank {k : Nat} (h : quantileRank samples p = k) :
    quantile samples p = orderStatistic samples k := by
  unfold quantile
  rw [h, interpolated_natCast]

theorem quantile_zero (samples : List Rat) : quantile samples 0 = orderStatistic samples 0 :=
  quantile_of_rank (by rw [quantileRank, mul_zero, Nat.cast_zero])

theorem quantile_one (hsome : samples ≠ []) :
    quantile samples 1 = orderStatistic samples (samples.length - 1) :=
  quantile_of_rank (quantileRank_one hsome)

/-- **The laws of the quantile** `y` of a batch at a probability. -/
structure LawfulQuantile (samples : List Rat) (p y : Rat) : Prop where
  value : sampleQuantile? (samples.map finite) (finite p) = some (finite y)
  /-- Both ranks next to that of the quantile are ranks of samples. -/
  ranks_lt : Scalar.floor (Scalar.ofNat (samples.length - 1) * finite p) < samples.length
    ∧ Scalar.ceil (Scalar.ofNat (samples.length - 1) * finite p) < samples.length
  perm : ∀ samples' : List Rat, samples'.Perm samples →
    sampleQuantile? (samples'.map finite) (finite p) = some (finite y)
  mono_probability : ∀ p' : Rat, p ≤ p' → p' ≤ 1 →
    ∃ y', sampleQuantile? (samples.map finite) (finite p') = some (finite y') ∧ y ≤ y'
  mono_samples : ∀ samples' : List Rat, List.Forall₂ (· ≤ ·) samples samples' →
    ∃ y', sampleQuantile? (samples'.map finite) (finite p) = some (finite y') ∧ y ≤ y'
  between : ∃ least greatest, IsLeast {x | x ∈ samples} least
    ∧ IsGreatest {x | x ∈ samples} greatest ∧ least ≤ y ∧ y ≤ greatest
  /-- At a whole rank it is the sample there, in ascending order. -/
  order : ∀ ordered : List Rat, ordered.Perm samples → ordered.Pairwise (· ≤ ·) →
    ∀ k : Nat, 1 < samples.length → p = k / ((samples.length : Rat) - 1) → ordered[k]? = some y

/-- **The sample quantile is a quantile function.**  There is none exactly of no samples or at
what is no probability; and of any samples at any probability there is one that is lawful. -/
theorem sampleQuantile?_lawful (samples : List Rat) :
    (∀ p : Extended, sampleQuantile? (samples.map finite) p = none
        ↔ samples = [] ∨ ¬(0.0 ≤ p ∧ p ≤ 1.0))
      ∧ (samples ≠ [] → ∀ p : Rat, 0 ≤ p → p ≤ 1 → ∃ y, LawfulQuantile samples p y) := by
  refine ⟨sampleQuantile?_eq_none_iff samples, fun hsome p h0 h1 => ⟨quantile samples p, ?_⟩⟩
  have hpos := List.length_pos_of_ne_nil hsome
  constructor
  case value => exact sampleQuantile?_eq_quantile hsome h0 h1
  case ranks_lt =>
    have hranks := quantileRank_lt hsome h1
    rwa [quantileRank, ← Nat.cast_pred hpos] at hranks
  case perm =>
    intro samples' hperm
    have hsome' : samples' ≠ [] := fun hnone => hsome (hnone ▸ hperm).nil_eq.symm
    rw [sampleQuantile?_eq_quantile hsome' h0 h1, quantile_perm hperm]
  case mono_probability =>
    intro p' hle hp'
    exact ⟨_, sampleQuantile?_eq_quantile hsome (h0.trans hle) hp', quantile_mono hsome h0 hle⟩
  case mono_samples =>
    intro samples' hgreater
    have hsome' : samples' ≠ [] := List.ne_nil_of_length_pos (hgreater.length_eq ▸ hpos)
    exact ⟨_, sampleQuantile?_eq_quantile hsome' h0 h1, quantile_le_of_forall₂ hsome hgreater h0⟩
  case between =>
    refine ⟨_, _, isLeast_orderStatistic hsome, isGreatest_orderStatistic hsome, ?_, ?_⟩
    · rw [← quantile_zero]
      exact quantile_mono hsome le_rfl h0
    · rw [← quantile_one hsome]
      exact quantile_mono hsome h0 h1
  case order =>
    intro ordered hperm hordered k hmany hk
    have hspan : (samples.length : Rat) - 1 ≠ 0 := by
      have hmany' : (1 : Rat) < samples.length := by exact_mod_cast hmany
      exact (sub_pos.mpr hmany').ne'
    have hrank : quantileRank samples p = k := by
      rw [quantileRank, hk, mul_div_cancel₀ _ hspan]
    have hk' : k < samples.length := by
      have hfloor := (quantileRank_lt hsome h1).1
      rwa [hrank, ← Int.cast_natCast, Rat.floor_intCast, Int.toNat_natCast] at hfloor
    rw [quantile_of_rank hrank]
    exact getElem?_ordered hperm hordered hk'

/-- The median of three samples is the one in the middle. -/
theorem sampleQuantile?_lawful_median : LawfulQuantile [3, 1, 2] (1 / 2) 2 := by
  obtain ⟨_, hlawful⟩ := sampleQuantile?_lawful [3, 1, 2]
  obtain ⟨y, hy⟩ := hlawful (List.cons_ne_nil _ _) (1 / 2) (by norm_num) (by norm_num)
  have hperm : ([1, 2, 3] : List Rat).Perm [3, 1, 2] :=
    ((List.Perm.swap 3 2 []).cons 1).trans (List.Perm.swap 3 1 [2])
  have hmiddle := hy.order [1, 2, 3] hperm (by norm_num) 1 (by decide) (by norm_num)
  cases Option.some.inj hmiddle
  exact hy

end Quantile

end CapacityControl.Stats
