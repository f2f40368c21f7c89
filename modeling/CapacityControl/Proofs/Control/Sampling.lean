/-
  CapacityControl.Proofs.Control.Sampling
  ───────────────────────────────────────
  WHAT SAMPLING BRINGS.  A sensor delivers if its poll works and holds a number; then
  and only then do values come out of it, and all of them are numbers
  (`values_ne_nil_iff`, `isFinite_of_mem_values`).  A channel that takes in such values
  keeps a rational level, and has one as soon as anything was observed
  (`Channel.Exact`).
-/
import CapacityControl.Control.Controller
import CapacityControl.Proofs.Exact.Arithmetic

namespace CapacityControl.Control

open Stats
open Extended (finite)

/-! ## §1. Sensors. -/

namespace Sensor

variable {α : Type} [Scalar α]

/-- The next poll works, and it finds a number. -/
def Delivers (s : Sensor α) : Prop :=
  s.failsNext = false ∧ ∃ reading ∈ s.held, Scalar.isFinite reading.value = true

omit [Scalar α] in
/-- A poll that fails moves nothing, and disarms the failure. -/
theorem sense_of_fails {s : Sensor α} (h : s.failsNext = true) :
    s.sense = (.error .sensorUnavailable, { s with failsNext := false }) :=
  if_pos h

omit [Scalar α] in
theorem sense_of_works {s : Sensor α} (h : s.failsNext = false) :
    s.sense = (.ok (), { s with pending := [], sensed := s.held }) :=
  if_neg (by rw [h]; exact Bool.false_ne_true)

theorem read_of_fails {s : Sensor α} (h : s.failsNext = true) :
    s.read = (⟨[], some (.failed .sensorUnavailable)⟩, { s with failsNext := false }) := by
  rw [read, sense_of_fails h]

theorem read_of_works {s : Sensor α} (h : s.failsNext = false) :
    s.read = (.ofReadings s.held, { s with pending := [], sensed := [] }) := by
  rw [read, sense_of_works h]
  rfl

theorem values_of_fails {s : Sensor α} (h : s.failsNext = true) : s.read.1.values = [] := by
  rw [read_of_fails h]
  rfl

theorem values_of_works {s : Sensor α} (h : s.failsNext = false) :
    s.read.1.values = (s.held.filter (Scalar.isFinite ·.value)).map (·.value) := by
  rw [read_of_works h]
  rfl

theorem isFinite_of_mem_values {s : Sensor α} {v : α} (hv : v ∈ s.read.1.values) :
    Scalar.isFinite v = true := by
  cases h : s.failsNext with
  | true =>
    rw [values_of_fails h] at hv
    cases hv
  | false =>
    rw [values_of_works h] at hv
    obtain ⟨reading, hreading, rfl⟩ := List.mem_map.mp hv
    exact (List.mem_filter.mp hreading).2

/-- **A sensor yields something** exactly if it delivers. -/
theorem values_ne_nil_iff (s : Sensor α) : s.read.1.values ≠ [] ↔ s.Delivers := by
  cases h : s.failsNext with
  | true =>
    rw [values_of_fails h]
    constructor
    · intro hne
      exact absurd rfl hne
    · rintro ⟨hworks, _⟩
      rw [h] at hworks
      cases hworks
  | false =>
    rw [values_of_works h, Ne, List.map_eq_nil_iff, List.filter_eq_nil_iff]
    push Not
    constructor
    · intro hnumber
      exact ⟨h, hnumber⟩
    · rintro ⟨_, hnumber⟩
      exact hnumber

end Sensor

/-! ## §2. Channels. -/

namespace Channel

/-- A channel that has taken in numbers only: its factor and its level are rational, and it
has a level if it observed anything. -/
structure Exact (c : Channel Extended) : Prop where
  factor : ∃ f, c.smoother.factor = finite f
  level : ∀ v, c.smoother.level = some v → ∃ q, v = finite q
  seen : c.observed ≠ 0 → c.smoother.level ≠ none

theorem exact_new {factor : Extended} (h : ∃ f, factor = finite f) :
    (⟨⟨factor, none⟩, 0⟩ : Channel Extended).Exact := by
  refine ⟨h, fun v hv => ?_, fun hseen => ?_⟩
  · cases hv
  · exact absurd rfl hseen

theorem Exact.rest {c : Channel Extended} (hc : c.Exact) : c.rest.Exact :=
  ⟨hc.factor, hc.level, fun hseen => absurd rfl hseen⟩

/-- Smoothing in a rational value leaves a rational level. -/
theorem Exact.next {c : Channel Extended} (hc : c.Exact) (q : Rat) :
    ∃ level, c.smoother.next (finite q) = finite level := by
  obtain ⟨f, hf⟩ := hc.factor
  unfold SingleSmoother.next
  cases hlevel : c.smoother.level with
  | none => exact ⟨q, rfl⟩
  | some before =>
    obtain ⟨p, rfl⟩ := hc.level before hlevel
    refine ⟨f * q + (1 - f) * p, ?_⟩
    simp only [hf, Extended.one_eq, Extended.finite_mul, Extended.finite_sub, Extended.finite_add]

theorem take_cons (c : Channel Extended) (v : Extended) (values : List Extended) :
    c.take (v :: values) = (⟨c.smoother.smooth v, c.observed + 1⟩ : Channel Extended).take values := by
  unfold take
  rw [List.foldl_cons, List.length_cons, Nat.add_assoc, Nat.add_comm 1]

theorem Exact.take {c : Channel Extended} (hc : c.Exact) {values : List Extended}
    (hvalues : ∀ v ∈ values, Scalar.isFinite v = true) : (c.take values).Exact := by
  induction values generalizing c with
  | nil => exact hc
  | cons v values ih =>
    rw [take_cons]
    refine ih ⟨hc.factor, ?_, ?_⟩ fun w hw => hvalues w (List.mem_cons_of_mem v hw)
    · intro w hw
      obtain ⟨q, rfl⟩ := (Extended.isFinite_iff v).mp (hvalues v List.mem_cons_self)
      obtain ⟨level, hlevel⟩ := hc.next q
      refine ⟨level, ?_⟩
      change some (c.smoother.next (finite q)) = some w at hw
      rw [hlevel] at hw
      exact (Option.some.inj hw).symm
    · intro _ hnone
      cases hnone

theorem observed_take_ne_zero {α : Type} [Scalar α] (c : Channel α) (values : List α) :
    (c.take values).observed ≠ 0 ↔ values ≠ [] ∨ c.observed ≠ 0 := by
  show c.observed + values.length ≠ 0 ↔ _
  rw [← List.length_pos_iff]
  omega

/-- What such a channel leaves over of a rational share is rational, once it has a level. -/
theorem Exact.residual {c : Channel Extended} (hc : c.Exact) (hseen : c.observed ≠ 0)
    (share : Rat) : ∃ q, c.residual (finite share) = finite q := by
  obtain ⟨v, hv⟩ := Option.ne_none_iff_exists'.mp (hc.seen hseen)
  obtain ⟨level, rfl⟩ := hc.level v hv
  refine ⟨share - level, ?_⟩
  unfold Channel.residual SingleSmoother.forecast?
  rw [hv, Option.getD_some, Extended.finite_sub]

end Channel

/-! ## §3. Machines. -/

namespace Controller

variable {α : Type} [Scalar α]

theorem length_sampleMachines (ms : List (Machine α)) (css : List (PerResource (Channel α))) :
    (sampleMachines ms css).machines.length = ms.length
      ∧ (sampleMachines ms css).channels.length = css.length := by
  induction ms generalizing css with
  | nil => exact ⟨rfl, rfl⟩
  | cons m ms ih =>
    cases css with
    | nil => exact ⟨rfl, rfl⟩
    | cons cs css =>
      obtain ⟨hmachines, hchannels⟩ := ih css
      exact ⟨congrArg (· + 1) hmachines, congrArg (· + 1) hchannels⟩

/-- **Each channel takes in what its own sensor yields**, if every machine has channels. -/
theorem getElem?_sampleMachines {ms : List (Machine α)} {css : List (PerResource (Channel α))}
    (hwired : css.length = ms.length) {i : Nat} {cs' : PerResource (Channel α)}
    (hcs' : (sampleMachines ms css).channels[i]? = some cs') :
    ∃ m cs, ms[i]? = some m ∧ css[i]? = some cs
      ∧ ∀ r, cs'.get r = (cs.get r).take (m.sensors.get r).read.1.values := by
  induction ms generalizing css i with
  | nil =>
    have hnil : css = [] := List.eq_nil_of_length_eq_zero hwired
    rw [hnil] at hcs'
    cases hcs'
  | cons m ms ih =>
    cases css with
    | nil => cases hwired
    | cons cs css =>
      cases i with
      | zero =>
        cases hcs'
        exact ⟨m, cs, rfl, rfl, fun r => by cases r <;> rfl⟩
      | succ i => exact ih (Nat.succ.inj hwired) hcs'

end Controller

end CapacityControl.Control
