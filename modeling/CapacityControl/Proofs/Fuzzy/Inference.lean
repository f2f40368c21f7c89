/-
  CapacityControl.Proofs.Fuzzy.Inference
  ──────────────────────────────────────
  INFERENCE IS SOUND, exactly.  Negation and the connectives keep degrees in the unit
  interval, so the degree of a condition, of a rule and of an aggregate lies there,
  whatever the tree and whatever the activations (`Condition.degree_inUnit`,
  `Output.aggregated_inUnit`).  An output that no rule is about falls back; otherwise
  its value is a weighted mean of its sample points, so it lies half a cell inside the
  range, unless there is no mass at all (`Output.value_of_activated`).  Together:
  `process_sound`.
-/
import CapacityControl.Proofs.Fuzzy.Bounds
import CapacityControl.Proofs.Fuzzy.Centre
import CapacityControl.Proofs.Fuzzy.Degree
import CapacityControl.Proofs.Fuzzy.Sentence

namespace CapacityControl.Fuzzy

open Extended (finite)

/-! ## §1. Connectives on the unit interval. -/

section Unit

variable {x y : Extended}

theorem inUnit_iff : Scalar.inUnit x = true ↔ ∃ q, x = finite q ∧ 0 ≤ q ∧ q ≤ 1 := by
  refine ⟨Extended.exists_finite_of_inUnit, ?_⟩
  rintro ⟨q, rfl, hlow, hhigh⟩
  unfold Scalar.inUnit
  rw [Bool.and_eq_true, decide_eq_true_iff, decide_eq_true_iff, Extended.zero_eq, Extended.one_eq,
    Extended.finite_le, Extended.finite_le]
  exact ⟨hlow, hhigh⟩

theorem one_sub_inUnit (hx : Scalar.inUnit x = true) : Scalar.inUnit (1.0 - x) = true := by
  obtain ⟨q, rfl, hlow, hhigh⟩ := inUnit_iff.mp hx
  rw [Extended.one_eq, Extended.finite_sub]
  exact inUnit_iff.mpr ⟨_, rfl, by linarith, by linarith⟩

theorem mul_inUnit (hx : Scalar.inUnit x = true) (hy : Scalar.inUnit y = true) :
    Scalar.inUnit (x * y) = true := by
  obtain ⟨a, rfl, ha, ha'⟩ := inUnit_iff.mp hx
  obtain ⟨b, rfl, hb, hb'⟩ := inUnit_iff.mp hy
  exact inUnit_iff.mpr ⟨a * b, rfl, mul_nonneg ha hb, mul_le_one₀ ha' hb hb'⟩

/-- **Conjunctions of degrees** are degrees. -/
theorem TNorm.apply_inUnit (t : TNorm) (hx : Scalar.inUnit x = true)
    (hy : Scalar.inUnit y = true) : Scalar.inUnit (t.apply x y) = true := by
  cases t with
  | algebraicProduct => exact mul_inUnit hx hy
  | minimum =>
    obtain ⟨a, rfl, ha, ha'⟩ := inUnit_iff.mp hx
    obtain ⟨b, rfl, hb, hb'⟩ := inUnit_iff.mp hy
    exact inUnit_iff.mpr ⟨min a b, Extended.min_finite a b, le_min ha hb, min_le_of_left_le ha'⟩

/-- **Disjunctions of degrees** are degrees. -/
theorem SNorm.apply_inUnit (s : SNorm) (hx : Scalar.inUnit x = true)
    (hy : Scalar.inUnit y = true) : Scalar.inUnit (s.apply x y) = true := by
  obtain ⟨a, rfl, ha, ha'⟩ := inUnit_iff.mp hx
  obtain ⟨b, rfl, hb, hb'⟩ := inUnit_iff.mp hy
  cases s with
  | maximum =>
    exact inUnit_iff.mpr ⟨max a b, Extended.max_finite a b, le_max_of_le_left ha, max_le ha' hb'⟩
  | algebraicSum =>
    -- What is missing from one is the product of what is missing from each.
    have hrest : 0 ≤ (1 - a) * (1 - b) := mul_nonneg (by linarith) (by linarith)
    have hpart : 0 ≤ (1 - a) * b := mul_nonneg (by linarith) hb
    refine inUnit_iff.mpr ⟨a + b - a * b, ?_, by linarith, by linarith⟩
    show finite a + finite b - finite a * finite b = _
    rw [Extended.finite_mul, Extended.finite_add, Extended.finite_sub]

end Unit

/-! ## §2. Memberships. -/

/-- A term that the checked constructor makes. -/
def Term.IsMade (t : Term Extended) : Prop := Term.new t.name t.shape = .ok t

/-- The corners of a proper shape are rational. -/
theorem Shape.exists_map_of_check {s : Shape Extended} (h : s.check = .ok s) :
    ∃ r : Shape Rat, s = r.map finite := by
  cases s with
  | ramp start stop =>
    unfold check at h
    by_cases hfinite : (Scalar.isFinite start && Scalar.isFinite stop) = true
    · obtain ⟨hstart, hstop⟩ := Bool.and_eq_true_iff.mp hfinite
      obtain ⟨a, rfl⟩ := (Extended.isFinite_iff start).mp hstart
      obtain ⟨b, rfl⟩ := (Extended.isFinite_iff stop).mp hstop
      exact ⟨.ramp a b, rfl⟩
    · simp [hfinite] at h
  | triangle left apex right =>
    unfold check at h
    by_cases hfinite :
        (Scalar.isFinite left && Scalar.isFinite apex && Scalar.isFinite right) = true
    · obtain ⟨hinner, hright⟩ := Bool.and_eq_true_iff.mp hfinite
      obtain ⟨hleft, hapex⟩ := Bool.and_eq_true_iff.mp hinner
      obtain ⟨a, rfl⟩ := (Extended.isFinite_iff left).mp hleft
      obtain ⟨b, rfl⟩ := (Extended.isFinite_iff apex).mp hapex
      obtain ⟨c, rfl⟩ := (Extended.isFinite_iff right).mp hright
      exact ⟨.triangle a b c, rfl⟩
    · simp [hfinite] at h

theorem Term.IsMade.check {t : Term Extended} (h : t.IsMade) : t.shape.check = .ok t.shape := by
  obtain ⟨name, _, h⟩ := bind_eq_ok_iff.mp h
  obtain ⟨shape, hshape, h⟩ := bind_eq_ok_iff.mp h
  cases h
  exact hshape

theorem Term.isMade_of_check {t : Term Extended} (hname : RuleText.IsName t.name)
    (hshape : t.shape.check.isOk = true) : t.IsMade :=
  Term.new_of_isOk hname hshape

/-- An infinite value is on one side of every corner, where a shape is flat. -/
theorem Shape.membership_infinite (s : Shape Rat) (negative : Bool) :
    Scalar.inUnit ((s.map finite).membership (.infinite negative)) = true := by
  have hzero : Scalar.inUnit (0.0 : Extended) = true := by decide +kernel
  have hone : Scalar.inUnit (1.0 : Extended) = true := by decide +kernel
  unfold membership
  rw [Extended.isNaN_infinite, if_neg Bool.false_ne_true]
  cases s with
  | ramp start stop =>
    show Scalar.inUnit (rampDegree (finite start) (finite stop) (.infinite negative)) = true
    rw [rampDegree_infinite]
    split_ifs
    · exact hzero
    · exact hone
  | triangle left apex right =>
    show Scalar.inUnit
      (triangleDegree (finite left) (finite apex) (finite right) (.infinite negative)) = true
    rw [triangleDegree_infinite]
    exact hzero

/-- **Memberships of defined values are degrees**, whatever the corners are. -/
theorem Shape.membership_inUnit (s : Shape Rat) {x : Extended} (hx : Scalar.isNaN x = false) :
    Scalar.inUnit ((s.map finite).membership x) = true := by
  cases x with
  | finite q =>
    rw [membership_finite]
    exact inUnit_iff.mpr ⟨_, rfl, s.degree_nonneg q, s.degree_le_one q⟩
  | infinite negative => exact s.membership_infinite negative
  | nan => cases hx

theorem Term.IsMade.membership_inUnit {t : Term Extended} (h : t.IsMade) {x : Extended}
    (hx : Scalar.isNaN x = false) : Scalar.inUnit (t.membership x) = true := by
  obtain ⟨s, hs⟩ := Shape.exists_map_of_check h.check
  unfold membership
  rw [hs]
  exact s.membership_inUnit hx

/-! ## §3. Conditions and rules. -/

/-- A rule that some engine reads. -/
def Rule.IsRead (r : Rule Extended) : Prop :=
  ∃ (e : Engine Extended) (text : String), e.readRule text = .ok r

theorem Rule.IsRead.weight_inUnit {r : Rule Extended} (h : r.IsRead) :
    Scalar.inUnit r.weight = true := by
  obtain ⟨e, text, h⟩ := h
  exact (RuleText.isSentence_of_readWords (mapError_eq_ok_iff.mp h)).2.inUnit (by decide +kernel)

/-- Inputs whose terms are made and whose values are numbers. -/
def AreFuzzified (inputs : List (Input Extended)) : Prop :=
  ∀ v ∈ inputs, v.isSet = true ∧ ∀ t ∈ v.terms, t.IsMade

section Degrees

variable {inputs : List (Input Extended)}

theorem isNaN_of_isFinite {x : Extended} (h : Scalar.isFinite x = true) :
    Scalar.isNaN x = false := by
  obtain ⟨q, rfl⟩ := (Extended.isFinite_iff x).mp h
  exact Extended.isNaN_finite q

theorem Proposition.degree_inUnit (h : AreFuzzified inputs) {p : Proposition}
    (hp : p.Inside (inputs.map (·.terms))) : Scalar.inUnit (p.degree inputs) = true := by
  obtain ⟨terms, hvar, hterm⟩ := hp
  rw [List.getElem?_map, Option.map_eq_some_iff] at hvar
  obtain ⟨v, hvar, rfl⟩ := hvar
  obtain ⟨hset, hmade⟩ := h v (List.mem_of_getElem? hvar)
  have hmu : Scalar.inUnit (v.membership p.term) = true := by
    unfold Input.membership membershipAt
    rw [List.getElem?_eq_getElem hterm]
    exact (hmade _ (List.getElem_mem hterm)).membership_inUnit (isNaN_of_isFinite hset)
  unfold degree
  rw [hvar]
  show Scalar.inUnit (if p.negated then 1.0 - v.membership p.term else v.membership p.term) = true
  split
  · exact one_sub_inUnit hmu
  · exact hmu

/-- **The degree of a condition is one**, whatever its tree and whatever its connectives. -/
theorem Condition.degree_inUnit (h : AreFuzzified inputs) (conjunction : TNorm)
    (disjunction : SNorm) {c : Condition}
    (hc : ∀ p, c.Mentions p → p.Inside (inputs.map (·.terms))) :
    Scalar.inUnit (c.degree inputs conjunction disjunction) = true := by
  induction c with
  | prop p => exact Proposition.degree_inUnit h (hc p .prop)
  | and l r ihl ihr =>
    exact conjunction.apply_inUnit (ihl fun p hp => hc p (.andLeft hp))
      (ihr fun p hp => hc p (.andRight hp))
  | or l r ihl ihr =>
    exact disjunction.apply_inUnit (ihl fun p hp => hc p (.orLeft hp))
      (ihr fun p hp => hc p (.orRight hp))

/-- The weighted degree of a rule is one too. -/
theorem RuleBlock.degreeOf_inUnit (h : AreFuzzified inputs) (b : RuleBlock Extended)
    {r : Rule Extended} (hread : r.IsRead)
    (hr : ∀ p, r.condition.Mentions p → p.Inside (inputs.map (·.terms))) :
    Scalar.inUnit (b.degreeOf inputs r) = true :=
  mul_inUnit hread.weight_inUnit (Condition.degree_inUnit h b.conjunction b.disjunction hr)

end Degrees

/-! ## §4. Outputs. -/

/-- An output over a rational range with made terms, whose activations are degrees of its
terms. -/
structure Output.IsActivated (v : Output Extended) : Prop where
  sound : v.Sound
  terms : ∀ t ∈ v.terms, t.IsMade
  degrees : ∀ a ∈ v.activations, Scalar.inUnit a.degree = true

namespace Output

variable {v : Output Extended}

theorem impliedMembership_inUnit (h : v.IsActivated) {x : Extended} (hx : Scalar.isNaN x = false)
    {a : Activation Extended} (ha : a ∈ v.activations) :
    Scalar.inUnit (impliedMembership v.terms x a) = true := by
  have hterm := h.sound.activations a ha
  unfold impliedMembership membershipAt
  rw [List.getElem?_eq_getElem hterm]
  exact a.implication.apply_inUnit (h.degrees a ha)
    ((h.terms _ (List.getElem_mem hterm)).membership_inUnit hx)

/-- **Aggregated memberships are degrees**, however many activations of whichever connectives
they come from. -/
theorem aggregated_inUnit (h : v.IsActivated) {x : Extended} (hx : Scalar.isNaN x = false) :
    Scalar.inUnit (v.aggregated x) = true := by
  -- The fold begins at the degree zero and joins one implied degree after the other.
  unfold aggregated
  refine List.foldlRecOn (motive := fun degree => Scalar.inUnit degree = true) v.activations _
    (by decide +kernel) fun degree hdegree a ha => ?_
  exact v.aggregation.apply_inUnit hdegree (impliedMembership_inUnit h hx ha)

/-- The width of a cell of the output. -/
def cellWidth (v : Output Extended) : Extended := v.centroid.cellWidth v.minimum v.maximum

/-- The `k`-th point at which the output is sampled. -/
def sample (v : Output Extended) (k : Nat) : Extended :=
  Centroid.midpoint v.minimum v.cellWidth k

/-- The range of a sound output is an interval of rationals. -/
theorem Sound.exists_range (h : v.Sound) :
    ∃ lo hi : Rat, v.minimum = finite lo ∧ v.maximum = finite hi ∧ lo < hi := by
  have hrange := h.range
  unfold checkRange at hrange
  by_cases hproper : (Scalar.isFinite v.minimum && Scalar.isFinite v.maximum
      && decide (v.minimum < v.maximum)) = true
  · simp only [Bool.and_eq_true, decide_eq_true_iff] at hproper
    obtain ⟨⟨hmin, hmax⟩, hlt⟩ := hproper
    obtain ⟨lo, hlo⟩ := (Extended.isFinite_iff _).mp hmin
    obtain ⟨hi, hhi⟩ := (Extended.isFinite_iff _).mp hmax
    rw [hlo, hhi, Extended.finite_lt] at hlt
    exact ⟨lo, hi, hlo, hhi, hlt⟩
  · rw [if_neg hproper] at hrange
    cases hrange

end Output

namespace Centroid

variable {c : Centroid} {f : Rat → Rat} {lo hi : Rat}

/-- **The centre of mass lies between the first and the last sample point**, half a cell inside
the range. -/
theorem centroid_mem (hf : ∀ x, 0 ≤ f x) (hrange : lo < hi) (hmass : c.area f lo hi ≠ 0) :
    lo + (hi - lo) / c.resolution / 2 ≤ c.centroid f lo hi
      ∧ c.centroid f lo hi ≤ hi - (hi - lo) / c.resolution / 2 := by
  have harea : 0 < c.area f lo hi :=
    lt_of_le_of_ne (Finset.sum_nonneg fun k _ => hf _) (Ne.symm hmass)
  have hcells : (0 : Rat) < c.resolution := by
    rw [Nat.cast_pos, Nat.pos_iff_ne_zero]
    intro hnone
    exact hmass (by simp [area, hnone])
  have hwidth : 0 < (hi - lo) / c.resolution := div_pos (by linarith) hcells
  constructor
  · -- No sample point lies before the first one.
    refine le_centroid harea (Finset.sum_nonneg fun k _ => mul_nonneg ?_ (hf _))
    have hbeyond : 0 ≤ (k : Rat) * ((hi - lo) / c.resolution) :=
      mul_nonneg (Nat.cast_nonneg k) hwidth.le
    unfold point
    push_cast
    linarith
  · -- No sample point lies after the last one.
    refine centroid_le harea (Finset.sum_nonpos fun k hk => mul_nonpos_of_nonpos_of_nonneg ?_ (hf _))
    have hwhole : (c.resolution : Rat) * ((hi - lo) / c.resolution) = hi - lo :=
      mul_div_cancel₀ _ hcells.ne'
    have hbefore : ((k : Rat) + 1) * ((hi - lo) / c.resolution)
        ≤ (c.resolution : Rat) * ((hi - lo) / c.resolution) := by
      refine mul_le_mul_of_nonneg_right ?_ hwidth.le
      exact_mod_cast Finset.mem_range.mp hk
    unfold point
    push_cast
    linarith

end Centroid

namespace Output

variable {v : Output Extended}

theorem exists_aggregated (h : v.IsActivated) :
    ∃ f : Rat → Rat, (∀ x, v.aggregated (finite x) = finite (f x)) ∧ ∀ x, 0 ≤ f x := by
  have hdegree : ∀ x, ∃ q, v.aggregated (finite x) = finite q ∧ 0 ≤ q := fun x => by
    obtain ⟨q, hq, hlow, _⟩ := inUnit_iff.mp (aggregated_inUnit h (Extended.isNaN_finite x))
    exact ⟨q, hq, hlow⟩
  choose f hf using hdegree
  exact ⟨f, fun x => (hf x).1, fun x => (hf x).2⟩

section Cells

variable {lo hi : Rat} (hmin : v.minimum = finite lo) (hmax : v.maximum = finite hi) {k : Nat}
  (hk : k < v.centroid.resolution)

include hmin hmax hk

/-- If there is any cell, the range is divided into as many as there are sample points. -/
theorem cellWidth_exact : v.cellWidth = finite ((hi - lo) / v.centroid.resolution) := by
  have hcells : (v.centroid.resolution : Rat) ≠ 0 := by
    exact_mod_cast (Nat.lt_of_le_of_lt (Nat.zero_le k) hk).ne'
  unfold cellWidth Centroid.cellWidth
  rw [hmin, hmax, Extended.finite_sub, Extended.ofNat_eq, Extended.finite_div _ _ hcells]

/-- The sample points are those of the centroid. -/
theorem sample_exact : v.sample k = finite (v.centroid.point lo hi k) := by
  unfold sample Centroid.midpoint Centroid.point
  rw [cellWidth_exact hmin hmax hk, hmin]
  norm_num

end Cells

/-- **The value of an activated output** is undefined if it has no mass at any sample point, and
otherwise lies half a cell inside its range. -/
theorem value_of_activated (h : v.IsActivated) (hactive : v.activations ≠ []) :
    ((∀ k < v.centroid.resolution, v.aggregated (v.sample k) = 0.0) →
        v.defuzzified.value = Scalar.nan)
      ∧ ((∃ k < v.centroid.resolution, v.aggregated (v.sample k) ≠ 0.0) →
        Scalar.isFinite v.defuzzified.value = true
          ∧ v.minimum + v.cellWidth / 2.0 ≤ v.defuzzified.value
          ∧ v.defuzzified.value ≤ v.maximum - v.cellWidth / 2.0) := by
  obtain ⟨f, hf, hnonneg⟩ := exists_aggregated h
  obtain ⟨lo, hi, hmin, hmax, hrange⟩ := h.sound.exists_range
  have hvalue : v.defuzzified.value = if v.centroid.area f lo hi = 0 then Scalar.nan
      else finite (v.centroid.centroid f lo hi) := by
    show (if v.activations.isEmpty then v.fallback
      else v.centroid.centre v.aggregated v.minimum v.maximum) = _
    rw [if_neg (by simpa using hactive), hmin, hmax, Centroid.centre_finite _ hf]
    rfl
  have hsample : ∀ k < v.centroid.resolution,
      v.aggregated (v.sample k) = finite (f (v.centroid.point lo hi k)) := by
    intro k hk
    rw [← hf, sample_exact hmin hmax hk]
  constructor
  · intro hnone
    have harea : v.centroid.area f lo hi = 0 := by
      rw [Centroid.area_eq_zero_iff fun _ _ => hnonneg _]
      intro k hk
      have hzero := hnone k hk
      rwa [hsample k hk, Extended.zero_eq, Extended.finite_inj] at hzero
    rw [hvalue, if_pos harea]
  · rintro ⟨k, hk, hmass⟩
    have harea : v.centroid.area f lo hi ≠ 0 := by
      rw [Ne, Centroid.area_eq_zero_iff fun _ _ => hnonneg _]
      intro hnone
      exact hmass (by rw [hsample k hk, hnone k hk, Extended.zero_eq])
    obtain ⟨hlow, hhigh⟩ := Centroid.centroid_mem hnonneg hrange harea
    rw [hvalue, if_neg harea, cellWidth_exact hmin hmax hk, hmin, hmax, Extended.two_eq,
      Extended.finite_div _ _ two_ne_zero, Extended.finite_add, Extended.finite_sub,
      Extended.finite_le, Extended.finite_le]
    exact ⟨rfl, hlow, hhigh⟩

end Output

/-! ## §5. Engines. -/

namespace Engine

/-- An engine whose terms are made by the checked constructor and whose rules are read from
texts, over whatever variables. -/
structure Proper (e : Engine Extended) : Prop where
  inputs : ∀ v ∈ e.inputs, ∀ t ∈ v.terms, t.IsMade
  outputs : ∀ v ∈ e.outputs, ∀ t ∈ v.terms, t.IsMade
  rules : ∀ b ∈ e.blocks, ∀ r ∈ b.rules, r.IsRead

/-- **Some rule about an output has a positive degree.** -/
def Fires (e : Engine Extended) (i : Nat) : Prop :=
  ∃ b ∈ e.blocks, ∃ r ∈ b.rules, (∃ c ∈ r.consequents, c.var = i) ∧ 0.0 < b.degreeOf e.inputs r

/-- **What inference makes of an output** `v` at an index: the output `v'`. -/
structure Infers (e : Engine Extended) (i : Nat) (v v' : Output Extended) : Prop where
  degrees : ∀ x, Scalar.isNaN x = false → Scalar.inUnit (v'.aggregated x) = true
  silent : ¬e.Fires i → v'.value = v.fallback
  massless : e.Fires i → (∀ k < v.centroid.resolution, v'.aggregated (v.sample k) = 0.0) →
    v'.value = Scalar.nan
  central : e.Fires i → (∃ k < v.centroid.resolution, v'.aggregated (v.sample k) ≠ 0.0) →
    Scalar.isFinite v'.value = true
      ∧ v.minimum + v.cellWidth / 2.0 ≤ v'.value ∧ v'.value ≤ v.maximum - v.cellWidth / 2.0

section Sound

variable {e : Engine Extended}

theorem Proper.areFuzzified (h : e.Proper) (hset : ∀ v ∈ e.inputs, v.isSet = true) :
    AreFuzzified e.inputs :=
  fun v hv => ⟨hset v hv, h.inputs v hv⟩

/-- An output is activated exactly if a rule about it fires. -/
theorem activationsOf_eq_nil_iff (e : Engine Extended) (i : Nat) :
    activationsOf i e.firings = [] ↔ ¬e.Fires i := by
  constructor
  · rintro hnone ⟨b, hb, r, hr, ⟨c, hc, hvar⟩, hpos⟩
    have hfiring : (⟨b.degreeOf e.inputs r, b.implication, r.consequents⟩ : Firing Extended)
        ∈ e.firings :=
      List.mem_flatMap.mpr ⟨b, hb, List.mem_filterMap.mpr ⟨r, hr, if_pos hpos⟩⟩
    have hactivation : (⟨c.term, b.degreeOf e.inputs r, b.implication⟩ : Activation Extended)
        ∈ activationsOf i e.firings :=
      List.mem_flatMap.mpr ⟨_, hfiring, List.mem_map.mpr
        ⟨c, List.mem_filter.mpr ⟨hc, beq_iff_eq.mpr hvar⟩, rfl⟩⟩
    rw [hnone] at hactivation
    exact absurd hactivation List.not_mem_nil
  · intro hsilent
    refine List.eq_nil_iff_forall_not_mem.mpr fun a ha => hsilent ?_
    obtain ⟨b, hb, r, hr, c, hc, hvar, hpos, _⟩ := exists_consequent_of_mem_activationsOf ha
    exact ⟨b, hb, r, hr, ⟨c, hc, hvar⟩, hpos⟩

/-- What rules conclude are degrees of terms of the output at hand, whether they fire or not. -/
theorem isActivated_of_concluded (h : e.Sound) (hproper : e.Proper)
    (hset : ∀ v ∈ e.inputs, v.isSet = true) {i : Nat} (hi : i < e.outputs.length)
    {as : List (Activation Extended)}
    (has : ∀ a ∈ as, ∃ b ∈ e.blocks, ∃ r ∈ b.rules, ∃ c ∈ r.consequents,
      c.var = i ∧ a = ⟨c.term, b.degreeOf e.inputs r, b.implication⟩) :
    Output.IsActivated { e.outputs[i] with activations := as } := by
  have hmem := List.getElem_mem hi
  have hterms : ∀ t ∈ e.outputs[i].terms, t.IsMade := hproper.outputs _ hmem
  refine ⟨⟨(h.outputs _ hmem).range, fun a ha => ?_⟩, hterms, fun a ha => ?_⟩
  · obtain ⟨b, hb, r, hr, c, hc, hvar, rfl⟩ := has a ha
    exact (h.rules b hb r hr).term_lt hc hvar hi
  · obtain ⟨b, hb, r, hr, _, _, _, rfl⟩ := has a ha
    exact b.degreeOf_inUnit (hproper.areFuzzified hset) (hproper.rules b hb r hr)
      (h.rules b hb r hr).condition

theorem isActivated_activationsOf (h : e.Sound) (hproper : e.Proper)
    (hset : ∀ v ∈ e.inputs, v.isSet = true) {i : Nat} (hi : i < e.outputs.length) :
    Output.IsActivated { e.outputs[i] with activations := activationsOf i e.firings } := by
  refine isActivated_of_concluded h hproper hset hi fun a ha => ?_
  obtain ⟨b, hb, r, hr, c, hc, hvar, _, heq⟩ := exists_consequent_of_mem_activationsOf ha
  exact ⟨b, hb, r, hr, c, hc, hvar, heq⟩

theorem infers_inferred (h : e.Sound) (hproper : e.Proper)
    (hset : ∀ v ∈ e.inputs, v.isSet = true) {i : Nat} (hi : i < e.outputs.length) :
    e.Infers i e.outputs[i]
      (Output.defuzzified { e.outputs[i] with activations := activationsOf i e.firings }) := by
  have hactivated := isActivated_activationsOf h hproper hset hi
  have hactive : e.Fires i → activationsOf i e.firings ≠ [] := fun hfires hnone =>
    (activationsOf_eq_nil_iff e i).mp hnone hfires
  refine ⟨fun x hx => Output.aggregated_inUnit hactivated hx, fun hsilent => ?_,
    fun hfires => (Output.value_of_activated hactivated (hactive hfires)).1,
    fun hfires => (Output.value_of_activated hactivated (hactive hfires)).2⟩
  have hnone := (activationsOf_eq_nil_iff e i).mpr hsilent
  unfold Output.defuzzified
  rw [hnone]
  rfl

/-- **Inference is sound.**  Over an engine with made terms and rules that were read, and numbers
for all inputs: every condition has a degree, whatever its tree and its connectives, and so has
every weighted rule; and an engine that lacks nothing infers outputs whose aggregated memberships
are degrees and whose values are the fallback if no rule about them has a positive degree,
undefined if one has but there is no mass at any sample point, and otherwise numbers half a cell
inside the range. -/
theorem process_sound (hreachable : e.Reachable) (hproper : e.Proper)
    (hset : ∀ v ∈ e.inputs, v.isSet = true) :
    (∀ (c : Condition) (conjunction : TNorm) (disjunction : SNorm),
        (∀ p, c.Mentions p → p.Inside e.inputTerms) →
        Scalar.inUnit (c.degree e.inputs conjunction disjunction) = true)
      ∧ (∀ b ∈ e.blocks, ∀ r ∈ b.rules, Scalar.inUnit (b.degreeOf e.inputs r) = true)
      ∧ (e.missing? = none → ∃ e', e.process = .ok e' ∧ e'.outputs.length = e.outputs.length
          ∧ ∀ i v, e.outputs[i]? = some v → ∃ v', e'.outputs[i]? = some v' ∧ e.Infers i v v') := by
  have hsound := hreachable.sound
  have hfuzzified := hproper.areFuzzified hset
  refine ⟨fun c conjunction disjunction hc => Condition.degree_inUnit hfuzzified _ _ hc,
    fun b hb r hr => ?_, fun hready => ⟨{ e with outputs := e.inferred }, ?_, ?_, ?_⟩⟩
  · exact b.degreeOf_inUnit hfuzzified (hproper.rules b hb r hr) (hsound.rules b hb r hr).condition
  · have hnumbers : e.inputs.find? (!·.isSet) = none :=
      List.find?_eq_none.mpr fun v hv => by simp [hset v hv]
    unfold process
    rw [hready, hnumbers]
  · exact List.length_mapIdx
  · intro i v hv
    obtain ⟨hi, rfl⟩ := List.getElem?_eq_some_iff.mp hv
    refine ⟨_, ?_, infers_inferred hsound hproper hset hi⟩
    show e.inferred[i]? = _
    unfold inferred
    rw [List.getElem?_mapIdx, List.getElem?_eq_getElem hi]
    rfl

/-- A rule for trials, with a negation and a weight. -/
def readableRule : Rule Extended :=
  ⟨"if A is not HIGH or A is LOW then Y is UP with 0.5",
    .or (.prop ⟨0, 1, true⟩) (.prop ⟨0, 0, false⟩), [⟨0, 0, false⟩], 0.5⟩

/-- Operations that build an engine with a triangle that has an upright side, and set its input
far outside the range. -/
def inferableAssembly : List (Operation Extended) :=
  [.addInput ⟨"A", 0.0, 1.0, [⟨"LOW", .ramp 1.0 0.0⟩, ⟨"HIGH", .triangle 0.0 1.0 1.0⟩], Scalar.nan⟩,
    .addOutput (assembledOutput "Y"),
    .addBlock ⟨"block", .minimum, .algebraicSum, .algebraicProduct, [readableRule]⟩,
    .setInput "A" 7.0]

/-- The engine that these operations build. -/
def inferable : Engine Extended := inferableAssembly.foldl perform (new "inferable")

theorem reachable_inferable : inferable.Reachable := by
  refine (Reachable.new "inferable").foldl_perform inferableAssembly fun v hv => ?_
  have hname : v = assembledOutput "Y" := by
    simpa [inferableAssembly] using hv
  rw [hname]
  exact madeOutput_assembledOutput (by decide +kernel)

/-- A rule that shows what reading comes to is read. -/
theorem isRead_of_toOption (e : Engine Extended) (text : String) {r : Rule Extended}
    (h : (e.readRule text).toOption.map (fun s => (s.text, s.condition, s.consequents, s.weight))
      = some (r.text, r.condition, r.consequents, r.weight)) : r.IsRead := by
  refine ⟨e, text, ?_⟩
  cases hread : e.readRule text with
  | error _ =>
    rw [hread] at h
    cases h
  | ok s =>
    rw [hread] at h
    obtain ⟨_, _, _, _⟩ := r
    cases h
    rfl

/-- An engine is proper if its terms pass the checks and its rules were read. -/
theorem proper_of_checks {e : Engine Extended}
    (hinputs : ∀ v ∈ e.inputs, ∀ t ∈ v.terms, RuleText.IsName t.name ∧ t.shape.check.isOk = true)
    (houtputs : ∀ v ∈ e.outputs, ∀ t ∈ v.terms, RuleText.IsName t.name ∧ t.shape.check.isOk = true)
    (hrules : ∀ b ∈ e.blocks, ∀ r ∈ b.rules, r.IsRead) : e.Proper :=
  ⟨fun v hv t ht => Term.isMade_of_check (hinputs v hv t ht).1 (hinputs v hv t ht).2,
    fun v hv t ht => Term.isMade_of_check (houtputs v hv t ht).1 (houtputs v hv t ht).2, hrules⟩

theorem proper_inferable : inferable.Proper := by
  have hread : readableRule.IsRead :=
    isRead_of_toOption inferable readableRule.text (by decide +kernel)
  refine proper_of_checks (by decide +kernel) (by decide +kernel) fun b hb r hr => ?_
  have hblocks : inferable.blocks.map (·.rules) = [[readableRule]] := by
    rfl
  have hrules : b.rules = [readableRule] := by
    have hmem := List.mem_map_of_mem (f := RuleBlock.rules) hb
    rw [hblocks] at hmem
    exact List.mem_singleton.mp hmem
  rw [hrules] at hr
  rw [List.mem_singleton.mp hr]
  exact hread

/-- Far outside the range a rule with a negation fires, and its output gets a value half a cell
inside the range. -/
theorem inferable_sound : inferable.Reachable ∧ inferable.Proper ∧ inferable.Fires 0
    ∧ ∃ e' v v', inferable.process = .ok e' ∧ inferable.outputs[0]? = some v
      ∧ e'.outputs[0]? = some v' ∧ inferable.Infers 0 v v' := by
  have hset : ∀ v ∈ inferable.inputs, v.isSet = true := by decide +kernel
  obtain ⟨_, _, hprocess⟩ := process_sound reachable_inferable proper_inferable hset
  obtain ⟨e', he', _, houtputs⟩ := hprocess (by decide +kernel)
  have hlength : 0 < inferable.outputs.length := by decide +kernel
  obtain ⟨v', hv', hinfers⟩ := houtputs 0 _ (List.getElem?_eq_getElem hlength)
  refine ⟨reachable_inferable, proper_inferable, ?_, e', _, v', he',
    List.getElem?_eq_getElem hlength, hv', hinfers⟩
  unfold Fires
  decide +kernel

end Sound

end Engine

end CapacityControl.Fuzzy
