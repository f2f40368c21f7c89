/-
  CapacityControl.Proofs.Fuzzy.Duality
  ────────────────────────────────────
  DE MORGAN'S LAWS, exactly.  Every norm has its conorm (`TNorm.dual`): what two degrees
  leave open is left open together exactly as far as the degrees do not hold one way or the
  other, and the other way round (`TNorm.apply_one_sub`, `TNorm.dual_apply_one_sub`).  So
  the dual of a condition, with every connective exchanged and every proposition flipped,
  holds to just the degree that the condition leaves open (`Condition.deMorgan`).
-/
import CapacityControl.Proofs.Fuzzy.Inference
import Mathlib.Algebra.Order.Group.MinMax

namespace CapacityControl.Fuzzy

open Extended (finite)

/-! ## §1. Norms and their conorms. -/

section Norms

variable {x y : Extended}

/-- What is left open by what is left open. -/
theorem one_sub_one_sub (hx : Scalar.inUnit x = true) : 1.0 - (1.0 - x) = x := by
  obtain ⟨q, rfl, _⟩ := inUnit_iff.mp hx
  rw [Extended.one_eq, Extended.finite_sub, Extended.finite_sub, sub_sub_cancel]

namespace TNorm

/-- **The conorm of a norm**: the maximum of the minimum, the sum of the product. -/
def dual : TNorm → SNorm
  | minimum => .maximum
  | algebraicProduct => .algebraicSum

variable (t : TNorm)

/-- **Both are left open** as far as neither one nor the other holds. -/
theorem apply_one_sub (hx : Scalar.inUnit x = true) (hy : Scalar.inUnit y = true) :
    t.apply (1.0 - x) (1.0 - y) = 1.0 - t.dual.apply x y := by
  obtain ⟨a, rfl, _⟩ := inUnit_iff.mp hx
  obtain ⟨b, rfl, _⟩ := inUnit_iff.mp hy
  rw [Extended.one_eq, Extended.finite_sub, Extended.finite_sub]
  cases t with
  | minimum =>
    show Scalar.min (finite (1 - a)) (finite (1 - b)) = finite 1 - Scalar.max (finite a) (finite b)
    rw [Extended.min_finite, Extended.max_finite, Extended.finite_sub, min_sub_sub_left]
  | algebraicProduct =>
    show finite (1 - a) * finite (1 - b)
      = finite 1 - (finite a + finite b - finite a * finite b)
    simp only [Extended.finite_mul, Extended.finite_add, Extended.finite_sub]
    congr 1
    ring

/-- **One or the other is left open** as far as they do not hold together. -/
theorem dual_apply_one_sub (hx : Scalar.inUnit x = true) (hy : Scalar.inUnit y = true) :
    t.dual.apply (1.0 - x) (1.0 - y) = 1.0 - t.apply x y := by
  -- The other law, read for what the two degrees leave open.
  have hlaw := t.apply_one_sub (one_sub_inUnit hx) (one_sub_inUnit hy)
  rw [one_sub_one_sub hx, one_sub_one_sub hy] at hlaw
  rw [hlaw, one_sub_one_sub]
  exact t.dual.apply_inUnit (one_sub_inUnit hx) (one_sub_inUnit hy)

end TNorm

end Norms

/-! ## §2. Dual conditions. -/

/-- The opposite of a proposition. -/
def Proposition.flipped (p : Proposition) : Proposition := { p with negated := !p.negated }

theorem Proposition.flipped_flipped (p : Proposition) : p.flipped.flipped = p := by
  obtain ⟨var, term, negated⟩ := p
  cases negated <;> rfl

namespace Condition

/-- **The dual of a condition**: `and` and `or` change places, and every proposition is turned
into its opposite. -/
def dual : Condition → Condition
  | prop p => prop p.flipped
  | and l r => or l.dual r.dual
  | or l r => and l.dual r.dual

theorem dual_dual (c : Condition) : c.dual.dual = c := by
  induction c with
  | prop p => exact congrArg prop p.flipped_flipped
  | and l r ihl ihr => exact congrArg₂ and ihl ihr
  | or l r ihl ihr => exact congrArg₂ or ihl ihr

/-- The dual mentions the opposite of what is mentioned. -/
theorem Mentions.dual {p : Proposition} {c : Condition} (h : c.Mentions p) :
    c.dual.Mentions p.flipped := by
  induction h with
  | prop => exact .prop
  | andLeft _ ih => exact .orLeft ih
  | andRight _ ih => exact .orRight ih
  | orLeft _ ih => exact .andLeft ih
  | orRight _ ih => exact .andRight ih

/-- Flipping leaves variables and terms alone, so the dual stays inside. -/
theorem inside_of_mentions_dual {owners : List (List (Term Extended))} {c : Condition}
    (hc : ∀ p, c.Mentions p → p.Inside owners) {p : Proposition} (hp : c.dual.Mentions p) :
    p.Inside owners := by
  have hflipped := hp.dual
  rw [c.dual_dual] at hflipped
  exact hc p.flipped hflipped

end Condition

/-! ## §3. Degrees. -/

section Degrees

variable {inputs : List (Input Extended)}

/-- **The opposite of a proposition** holds as far as the proposition does not. -/
theorem Proposition.degree_flipped (h : AreFuzzified inputs) {p : Proposition}
    (hp : p.Inside (inputs.map (·.terms))) : p.flipped.degree inputs = 1.0 - p.degree inputs := by
  obtain ⟨var, term, negated⟩ := p
  cases negated with
  | false => rfl
  | true =>
    -- What is negated is itself the degree of a proposition.
    have hmu : Scalar.inUnit (Proposition.degree ⟨var, term, false⟩ inputs) = true :=
      degree_inUnit h hp
    exact (one_sub_one_sub hmu).symm

namespace Condition

/-- **The dual leaves open** what the condition holds, by induction over its tree: each
connective becomes the other one, whose law ties the degrees of the two branches. -/
theorem degree_dual (h : AreFuzzified inputs) (t : TNorm) {c : Condition}
    (hc : ∀ p, c.Mentions p → p.Inside (inputs.map (·.terms))) :
    c.dual.degree inputs t t.dual = 1.0 - c.degree inputs t t.dual := by
  induction c with
  | prop p => exact Proposition.degree_flipped h (hc p .prop)
  | and l r ihl ihr =>
    have hl : ∀ p, l.Mentions p → p.Inside (inputs.map (·.terms)) := fun p hp => hc p (.andLeft hp)
    have hr : ∀ p, r.Mentions p → p.Inside (inputs.map (·.terms)) := fun p hp => hc p (.andRight hp)
    show t.dual.apply (l.dual.degree inputs t t.dual) (r.dual.degree inputs t t.dual)
      = 1.0 - t.apply (l.degree inputs t t.dual) (r.degree inputs t t.dual)
    rw [ihl hl, ihr hr]
    exact t.dual_apply_one_sub (degree_inUnit h t t.dual hl) (degree_inUnit h t t.dual hr)
  | or l r ihl ihr =>
    have hl : ∀ p, l.Mentions p → p.Inside (inputs.map (·.terms)) := fun p hp => hc p (.orLeft hp)
    have hr : ∀ p, r.Mentions p → p.Inside (inputs.map (·.terms)) := fun p hp => hc p (.orRight hp)
    show t.apply (l.dual.degree inputs t t.dual) (r.dual.degree inputs t t.dual)
      = 1.0 - t.dual.apply (l.degree inputs t t.dual) (r.degree inputs t t.dual)
    rw [ihl hl, ihr hr]
    exact t.apply_one_sub (degree_inUnit h t t.dual hl) (degree_inUnit h t t.dual hr)

/-- **De Morgan's law for conditions**, in exact arithmetic.  Over inputs with numbers for values
and made terms, and with a norm and its conorm for connectives: whatever the dual of a condition
mentions is there if it is for the condition, and the degrees of the two add up to one. -/
theorem deMorgan (h : AreFuzzified inputs) (t : TNorm) {c : Condition}
    (hc : ∀ p, c.Mentions p → p.Inside (inputs.map (·.terms))) :
    (∀ p, c.dual.Mentions p → p.Inside (inputs.map (·.terms)))
      ∧ ∃ q : Rat, 0 ≤ q ∧ q ≤ 1 ∧ c.degree inputs t t.dual = finite q
        ∧ c.dual.degree inputs t t.dual = finite (1 - q) := by
  obtain ⟨q, hq, hnonneg, hone⟩ := inUnit_iff.mp (degree_inUnit h t t.dual hc)
  refine ⟨fun p hp => inside_of_mentions_dual hc hp, q, hnonneg, hone, hq, ?_⟩
  rw [degree_dual h t hc, hq, Extended.one_eq, Extended.finite_sub]

/-- Inputs for trials: a triangle with an upright side, and a value beyond its range. -/
def opposed : List (Input Extended) :=
  [⟨"A", 0.0, 1.0, [⟨"LOW", .ramp 1.0 0.0⟩, ⟨"FULL", .triangle 0.0 1.0 1.0⟩], 0.75⟩,
    ⟨"B", 0.0, 1.0, [⟨"HIGH", .ramp 0.0 2.0⟩], 1.25⟩]

/-- A condition for trials, with a negation below each connective. -/
def opposing : Condition :=
  .or (.and (.prop ⟨0, 0, false⟩) (.prop ⟨1, 0, true⟩)) (.prop ⟨0, 1, true⟩)

/-- With product and sum the condition holds to `41 / 128`, and its dual to what that is short of
one. -/
theorem deMorgan_trial : AreFuzzified opposed
    ∧ (∀ p, opposing.Mentions p → p.Inside (opposed.map (·.terms)))
    ∧ opposing.dual = .and (.or (.prop ⟨0, 0, true⟩) (.prop ⟨1, 0, false⟩)) (.prop ⟨0, 1, false⟩)
    ∧ opposing.degree opposed .algebraicProduct .algebraicSum = finite (41 / 128)
    ∧ opposing.dual.degree opposed .algebraicProduct .algebraicSum = finite (1 - 41 / 128) := by
  have hfuzzified : AreFuzzified opposed := by
    have hchecks : ∀ v ∈ opposed, v.isSet = true
        ∧ ∀ t ∈ v.terms, RuleText.IsName t.name ∧ t.shape.check.isOk = true := by
      decide +kernel
    exact fun v hv => ⟨(hchecks v hv).1, fun t ht =>
      Term.isMade_of_check ((hchecks v hv).2 t ht).1 ((hchecks v hv).2 t ht).2⟩
  have hinside : ∀ p, opposing.Mentions p → p.Inside (opposed.map (·.terms)) := by
    intro p hp
    have hmem := (mem_propositions_iff p opposing).mpr hp
    simp only [opposing, propositions, List.cons_append, List.nil_append, List.mem_cons,
      List.not_mem_nil, or_false] at hmem
    rcases hmem with rfl | rfl | rfl
    · exact ⟨_, rfl, by decide⟩
    · exact ⟨_, rfl, by decide⟩
    · exact ⟨_, rfl, by decide⟩
  have hdegree : opposing.degree opposed .algebraicProduct .algebraicSum = finite (41 / 128) := by
    decide +kernel
  obtain ⟨_, q, _, _, hq, hdual⟩ := deMorgan hfuzzified .algebraicProduct hinside
  obtain rfl : q = 41 / 128 := (Extended.finite_inj _ _).mp (hq.symm.trans hdegree)
  exact ⟨hfuzzified, hinside, rfl, hdegree, hdual⟩

end Condition

end Degrees

end CapacityControl.Fuzzy
