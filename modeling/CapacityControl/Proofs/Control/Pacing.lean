/-
  CapacityControl.Proofs.Control.Pacing
  ─────────────────────────────────────
  THE LOOP OF A PACER.  `Pacer.Loop` is the loop as it is written: turn after turn until the
  next call is after the stop, with no bound on the turns.  Where the clocks stand is told by
  two numbers (`Pacer.At`); every turn raises one of them or both (`Pacer.At.turn`) and none
  beyond the number of periods up to the stop, so the loop ends and the turns of
  `Pacer.runUntil` suffice (`Pacer.At.loop_runUntil`).  Loops compose: one stop after the other
  comes to the same as the last stop at once (`Pacer.Loop.trans`), and after a stop there is
  nothing to do until an earlier one (`Pacer.runUntil_idle`).
-/
import CapacityControl.Control.Pacer
import CapacityControl.Proofs.Exact.Arithmetic
import Mathlib.Data.Rat.Floor

namespace CapacityControl

/-! ## §1. Periods. -/

/-- What is after a rational is after any that is not larger. -/
theorem Extended.finite_lt_of_le {u w : Rat} (hle : u ≤ w) {x : Extended}
    (h : finite w < x) : finite u < x := by
  cases x with
  | finite q =>
    rw [finite_lt] at h ⊢
    exact lt_of_le_of_lt hle h
  | infinite negative => exact h
  | nan => cases h

/-- What is not before a rational is after any that is smaller. -/
theorem Extended.finite_lt_of_lt {u w : Rat} (hlt : u < w) {x : Extended}
    (h : finite w ≤ x) : finite u < x := by
  cases x with
  | finite q =>
    rw [finite_le] at h
    exact (finite_lt u q).mpr (lt_of_lt_of_le hlt h)
  | infinite negative =>
    cases negative with
    | true => cases h
    | false => rfl
  | nan => cases h

theorem Extended.floor_eq (q : Rat) : Scalar.floor (finite q) = ⌊q⌋₊ := Int.floor_toNat q

/-- The `k`-th end of a period, counted from zero, is not after `u` as long as `k` is below the
number of periods up to `u`. -/
theorem period_le_iff {T u : Rat} (hT : 0 < T) (k : Nat) :
    ((k : Rat) + 1) * T ≤ u ↔ k < ⌊u / T⌋₊ := by
  rw [← le_div_iff₀ hT, ← Nat.succ_le_iff, Nat.le_floor_iff' (Nat.succ_ne_zero k), Nat.cast_succ]

namespace Control

open Extended (finite)

/-! ## §2. The loop. -/

namespace Pacer

section Loop

variable {α : Type} [Scalar α]

/-- **The loop until a time**: from a pacer, with these calls, to a pacer. -/
inductive Loop (stop : α) : Pacer α → List (Call α) → Pacer α → Prop
  | done {p : Pacer α} (h : stop < p.next) : Loop stop p [] p
  | turn {p last : Pacer α} {calls : List (Call α)} (h : ¬ stop < p.next)
      (hrest : Loop stop p.advance calls last) : Loop stop p (p.due ++ calls) last

variable {stop : α} {p q : Pacer α} {calls : List (Call α)}

/-- The loop stands still only when the next call is after the stop. -/
theorem Loop.stopped (h : Loop stop p calls q) : stop < q.next := by
  induction h with
  | done h => exact h
  | turn _ _ ih => exact ih

/-- **There is one way to go.** -/
theorem Loop.unique {calls' : List (Call α)} {q' : Pacer α} (h : Loop stop p calls q)
    (h' : Loop stop p calls' q') : calls = calls' ∧ q = q' := by
  induction h generalizing calls' q' with
  | done h =>
    cases h' with
    | done _ => exact ⟨rfl, rfl⟩
    | turn hturn _ => exact absurd h hturn
  | turn hturn _ ih =>
    cases h' with
    | done h => exact absurd h hturn
    | turn _ hrest =>
      obtain ⟨rfl, rfl⟩ := ih hrest
      exact ⟨rfl, rfl⟩

/-- The loop looks at the clocks, not at the time of the pacer. -/
theorem Loop.withNow (h : Loop stop p calls q) (now : α) :
    ∃ now', Loop stop { p with now := now } calls { q with now := now' } := by
  cases h with
  | done h => exact ⟨now, .done h⟩
  | turn hturn hrest => exact ⟨q.now, .turn hturn hrest⟩

/-- After a stop there is nothing to do until an earlier one. -/
theorem runUntil_idle (h : stop < p.next) : p.runUntil stop = ([], { p with now := stop }) := by
  unfold runUntil turns run
  rw [if_pos h]

/-- Runs until several times, one after the other. -/
def runEach (p : Pacer α) : List α → List (Call α) × Pacer α
  | [] => ([], p)
  | stop :: stops =>
    let (calls, q) := p.runUntil stop
    let (rest, last) := q.runEach stops
    (calls ++ rest, last)

end Loop

variable {p q r : Pacer Extended} {calls rest : List (Call Extended)} {u w : Rat}

/-- **Loops compose**: one stop after the other comes to the same as the last stop at once. -/
theorem Loop.trans (h : Loop (finite u) p calls q) (hle : u ≤ w)
    (h' : Loop (finite w) q rest r) : Loop (finite w) p (calls ++ rest) r := by
  induction h with
  | done _ => exact h'
  | turn hturn _ ih =>
    rw [List.append_assoc]
    exact .turn (fun h => hturn (Extended.finite_lt_of_le hle h)) (ih h')

/-! ## §3. Where the clocks stand. -/

/-- The clocks of a pacer after `a` samples and `b` controls. -/
structure At (p : Pacer Extended) (Ts Tc : Rat) (a b : Nat) : Prop where
  sampling : p.sampling = ⟨finite Ts, finite ((a + 1) * Ts)⟩
  control : p.control = ⟨finite Tc, finite ((b + 1) * Tc)⟩

theorem at_new (Ts Tc : Rat) : (new ⟨finite Ts, finite Tc⟩ : Pacer Extended).At Ts Tc 0 0 := by
  constructor
  · simp [new, Clock.new]
  · simp [new, Clock.new]

section At

variable {Ts Tc : Rat} {a b : Nat}

theorem At.withNow (h : p.At Ts Tc a b) (now : Extended) :
    At { p with now := now } Ts Tc a b :=
  ⟨h.sampling, h.control⟩

/-- The next call is that of the clock that is due first. -/
theorem At.next (h : p.At Ts Tc a b) :
    p.next = finite (min ((a + 1) * Ts) ((b + 1) * Tc)) := by
  unfold Pacer.next
  rw [h.sampling, h.control]
  by_cases hle : ((a : Rat) + 1) * Ts ≤ (b + 1) * Tc
  · rw [if_pos ((Extended.finite_le _ _).mpr hle), min_eq_left hle]
  · rw [if_neg (mt (Extended.finite_le _ _).mp hle), min_eq_right (le_of_not_ge hle)]

/-- **What a turn does**: it samples, or samples and controls, or controls, whichever is due
first, and moves the clocks that were due. -/
theorem At.turn (h : p.At Ts Tc a b) :
    (((a : Rat) + 1) * Ts < (b + 1) * Tc ∧ p.due = [.sample (finite ((a + 1) * Ts))]
        ∧ p.advance.At Ts Tc (a + 1) b)
      ∨ (((a : Rat) + 1) * Ts = (b + 1) * Tc
        ∧ p.due = [.sample (finite ((a + 1) * Ts)), .control (finite ((b + 1) * Tc))]
        ∧ p.advance.At Ts Tc (a + 1) (b + 1))
      ∨ (((b : Rat) + 1) * Tc < (a + 1) * Ts ∧ p.due = [.control (finite ((b + 1) * Tc))]
        ∧ p.advance.At Ts Tc a (b + 1)) := by
  have hsampling : ((a : Rat) + 1) * Ts + Ts = (((a + 1 : Nat) : Rat) + 1) * Ts := by
    push_cast
    ring
  have hcontrol : ((b : Rat) + 1) * Tc + Tc = (((b + 1 : Nat) : Rat) + 1) * Tc := by
    push_cast
    ring
  rcases lt_trichotomy (((a : Rat) + 1) * Ts) ((b + 1) * Tc) with hlt | heq | hgt
  · refine Or.inl ⟨hlt, ?_, ?_, ?_⟩
    · simp [due, Clock.isDue, h.next, h.sampling, h.control, min_eq_left hlt.le, hlt]
    · simp [advance, Clock.isDue, Clock.advance, h.next, h.sampling, min_eq_left hlt.le,
        hsampling]
    · simp [advance, Clock.isDue, h.next, h.control, min_eq_left hlt.le, hlt]
  · refine Or.inr (Or.inl ⟨heq, ?_, ?_, ?_⟩)
    · simp [due, Clock.isDue, h.next, h.sampling, h.control, heq]
    · simp [advance, Clock.isDue, Clock.advance, h.next, h.sampling, heq.le, hsampling]
    · simp [advance, Clock.isDue, Clock.advance, h.next, h.control, heq.ge, hcontrol]
  · refine Or.inr (Or.inr ⟨hgt, ?_, ?_, ?_⟩)
    · simp [due, Clock.isDue, h.next, h.sampling, h.control, min_eq_right hgt.le, hgt]
    · simp [advance, Clock.isDue, h.next, h.sampling, min_eq_right hgt.le, hgt]
    · simp [advance, Clock.isDue, Clock.advance, h.next, h.control, min_eq_right hgt.le,
        hcontrol]

variable (hTs : 0 < Ts) (hTc : 0 < Tc)

include hTs hTc

/-- The loop goes on as long as one clock has not ended all of its periods up to the stop. -/
theorem At.lt_next_iff (h : p.At Ts Tc a b) :
    finite u < p.next ↔ ⌊u / Ts⌋₊ ≤ a ∧ ⌊u / Tc⌋₊ ≤ b := by
  rw [h.next, Extended.finite_lt, lt_min_iff, ← not_le, ← not_le, period_le_iff hTs,
    period_le_iff hTc, not_lt, not_lt]

/-- What a turn does before the stop: a clock that is moved still had a period to end. -/
theorem At.step (h : p.At Ts Tc a b) (hu : ¬ finite u < p.next) :
    (a < ⌊u / Ts⌋₊ ∧ p.due = [.sample (finite ((a + 1) * Ts))] ∧ p.advance.At Ts Tc (a + 1) b)
      ∨ (a < ⌊u / Ts⌋₊ ∧ b < ⌊u / Tc⌋₊
        ∧ p.due = [.sample (finite ((a + 1) * Ts)), .control (finite ((b + 1) * Tc))]
        ∧ p.advance.At Ts Tc (a + 1) (b + 1))
      ∨ (b < ⌊u / Tc⌋₊ ∧ p.due = [.control (finite ((b + 1) * Tc))]
        ∧ p.advance.At Ts Tc a (b + 1)) := by
  rw [h.next, Extended.finite_lt, not_lt] at hu
  rcases h.turn with ⟨hlt, hdue, hat⟩ | ⟨heq, hdue, hat⟩ | ⟨hgt, hdue, hat⟩
  · rw [min_eq_left hlt.le] at hu
    exact Or.inl ⟨(period_le_iff hTs a).mp hu, hdue, hat⟩
  · rw [min_eq_left heq.le] at hu
    exact Or.inr (Or.inl ⟨(period_le_iff hTs a).mp hu, (period_le_iff hTc b).mp (heq ▸ hu), hdue,
      hat⟩)
  · rw [min_eq_right hgt.le] at hu
    exact Or.inr (Or.inr ⟨(period_le_iff hTc b).mp hu, hdue, hat⟩)

/-- Time goes on with every turn. -/
theorem At.next_lt_advance (h : p.At Ts Tc a b) : p.next < p.advance.next := by
  rcases h.turn with ⟨hlt, _, hat⟩ | ⟨heq, _, hat⟩ | ⟨hgt, _, hat⟩ <;>
    rw [h.next, hat.next, Extended.finite_lt, lt_min_iff] <;> push_cast
  · rw [min_eq_left hlt.le]
    exact ⟨by linarith, hlt⟩
  · rw [min_eq_left heq.le]
    exact ⟨by linarith, by linarith⟩
  · rw [min_eq_right hgt.le]
    exact ⟨hgt, by linarith⟩

/-! ## §4. The loop ends. -/

/-- **Enough turns** end the loop. -/
theorem At.loop_run (h : p.At Ts Tc a b) {fuel : Nat}
    (hfuel : (⌊u / Ts⌋₊ - a) + (⌊u / Tc⌋₊ - b) < fuel) :
    ∃ last, Loop (finite u) p (run (finite u) fuel p).1 last
      ∧ (run (finite u) fuel p).2 = { last with now := finite u } := by
  induction fuel generalizing p a b with
  | zero => omega
  | succ fuel ih =>
    unfold run
    by_cases hu : finite u < p.next
    · rw [if_pos hu]
      exact ⟨p, .done hu, rfl⟩
    · rw [if_neg hu]
      -- Each turn ends a period that there was still to end.
      have hrest : ∃ a' b', p.advance.At Ts Tc a' b'
          ∧ (⌊u / Ts⌋₊ - a') + (⌊u / Tc⌋₊ - b') < fuel := by
        rcases h.step hTs hTc hu with ⟨ha, _, hat⟩ | ⟨ha, hb, _, hat⟩ | ⟨hb, _, hat⟩
        · exact ⟨a + 1, b, hat, by omega⟩
        · exact ⟨a + 1, b + 1, hat, by omega⟩
        · exact ⟨a, b + 1, hat, by omega⟩
      obtain ⟨a', b', hat, hlt⟩ := hrest
      obtain ⟨last, hloop, hlast⟩ := ih hat hlt
      exact ⟨last, .turn hu hloop, hlast⟩

omit hTc in
/-- The turns that a pacer takes for a clock are at least its periods up to the stop. -/
theorem le_dueCount (k : Nat) :
    ⌊u / Ts⌋₊ - k ≤ dueCount ⟨finite Ts, finite ((k + 1) * Ts)⟩ (finite u) := by
  have hquotient : (u - (k + 1) * Ts) / Ts = u / Ts - ((k + 1 : Nat) : Rat) := by
    push_cast
    field_simp
  have hfloor : dueCount ⟨finite Ts, finite ((k + 1) * Ts)⟩ (finite u)
      = ⌊u / Ts⌋₊ - (k + 1) + 1 := by
    unfold dueCount
    rw [Extended.finite_sub, Extended.finite_div _ _ hTs.ne', hquotient,
      ← Nat.floor_sub_natCast, Extended.floor_eq]
  omega

/-- **Running until a time ends**: it is the loop until that time. -/
theorem At.loop_runUntil (h : p.At Ts Tc a b) (u : Rat) :
    ∃ last, Loop (finite u) p (p.runUntil (finite u)).1 last
      ∧ (p.runUntil (finite u)).2 = { last with now := finite u } := by
  refine h.loop_run hTs hTc ?_
  have hsampling := le_dueCount hTs a (u := u)
  have hcontrol := le_dueCount hTc b (u := u)
  unfold turns
  rw [h.sampling, h.control]
  omega

/-- Wherever the loop ends, no clock has gone back. -/
theorem At.loop (h : p.At Ts Tc a b) (hloop : Loop (finite u) p calls q) :
    ∃ a' b', q.At Ts Tc a' b' := by
  induction hloop generalizing a b with
  | done _ => exact ⟨a, b, h⟩
  | turn hturn _ ih =>
    rcases h.step hTs hTc hturn with ⟨_, _, hat⟩ | ⟨_, _, _, hat⟩ | ⟨_, _, hat⟩
    · exact ih hat
    · exact ih hat
    · exact ih hat

/-! ## §5. One stop after the other. -/

/-- Whatever the stops, the clocks stand somewhere afterwards. -/
theorem At.runEach (h : p.At Ts Tc a b) (stops : List Rat) :
    ∃ a' b', (p.runEach (stops.map finite)).2.At Ts Tc a' b' := by
  induction stops generalizing p a b with
  | nil => exact ⟨a, b, h⟩
  | cons stop stops ih =>
    obtain ⟨last, hloop, hlast⟩ := h.loop_runUntil hTs hTc stop
    obtain ⟨a', b', hat⟩ := h.loop hTs hTc hloop
    have hstopped : (p.runUntil (finite stop)).2.At Ts Tc a' b' := by
      rw [hlast]
      exact hat.withNow _
    exact ih hstopped

omit hTs hTc in
/-- Stops that are over make no calls. -/
theorem runEach_idle {stops : List Rat} (hmax : ∀ stop ∈ stops, stop ≤ u)
    (h : finite u < p.next) : (p.runEach (stops.map finite)).1 = [] := by
  induction stops generalizing p with
  | nil => rfl
  | cons stop stops ih =>
    have hidle := runUntil_idle (Extended.finite_lt_of_le (hmax stop List.mem_cons_self) h)
    show (p.runUntil (finite stop)).1 ++ ((p.runUntil (finite stop)).2.runEach _).1 = []
    rw [hidle, List.nil_append]
    exact ih (fun stop hstop => hmax stop (List.mem_cons_of_mem _ hstop)) h

/-- **One stop after the other** comes to the same as the last of them at once. -/
theorem At.loop_runEach (h : p.At Ts Tc a b) {stops : List Rat} (hmem : u ∈ stops)
    (hmax : ∀ stop ∈ stops, stop ≤ u) :
    ∃ last, Loop (finite u) p (p.runEach (stops.map finite)).1 last := by
  induction stops generalizing p a b with
  | nil => cases hmem
  | cons stop stops ih =>
    have hrest : ∀ stop ∈ stops, stop ≤ u := fun stop hstop =>
      hmax stop (List.mem_cons_of_mem _ hstop)
    obtain ⟨q, hloop, hlast⟩ := h.loop_runUntil hTs hTc stop
    show ∃ last, Loop (finite u) p
      ((p.runUntil (finite stop)).1 ++ ((p.runUntil (finite stop)).2.runEach _).1) last
    rw [hlast]
    rcases List.mem_cons.mp hmem with rfl | hmem
    · -- This is the last of the stops; the others are over.
      have hidle := runEach_idle (p := { q with now := finite u }) hrest hloop.stopped
      rw [hidle, List.append_nil]
      exact ⟨q, hloop⟩
    · obtain ⟨a', b', hat⟩ := h.loop hTs hTc hloop
      obtain ⟨last, hthen⟩ := ih (hat.withNow (finite stop)) hmem hrest
      obtain ⟨now, hthen⟩ := hthen.withNow q.now
      exact ⟨_, hloop.trans (hmax stop List.mem_cons_self) hthen⟩

end At

end Pacer

end Control

end CapacityControl
