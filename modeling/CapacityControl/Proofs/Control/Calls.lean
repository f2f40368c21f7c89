/-
  CapacityControl.Proofs.Control.Calls
  ────────────────────────────────────
  THE CONTROLS OF A RUN.  A run makes controls one at a time or, while a pacer runs, many
  at once.  `Station.controls` lists them all, each with its time and with the station
  that makes it, and what every control, every reset and every quiet action keeps of a
  station and of the controls so far, the run keeps (`Station.run_induction`).
-/
import CapacityControl.Proofs.Control.Reachable

namespace CapacityControl.Control

variable {α : Type} [Scalar α]

/-! ## §1. The controls of a run. -/

/-- Whether an action is neither a reset nor makes controls. -/
def Action.isQuiet : Action α → Bool
  | .reset | .control | .runUntil _ _ => false
  | _ => true

namespace Station

/-- The controls among the calls of a paced run. -/
def Walk.controls (feeds : List (List (Item α))) (stamp : Int) :
    Walk α → List (Call α) → List (Int × Station α)
  | _, [] => []
  | w, .sample time :: calls =>
    Walk.controls feeds stamp (w.call feeds stamp (.sample time)) calls
  | w, .control time :: calls =>
    (stamp, w.performed.station)
      :: Walk.controls feeds stamp (w.call feeds stamp (.control time)) calls

/-- The controls that an action makes. -/
def controlsOf (s : Station α) (stamp : Int) : Action α → List (Int × Station α)
  | .control => [(stamp, s)]
  | .runUntil time feeds =>
    match s.pacer with
    | none => []
    | some pacer =>
      let (calls, pacer) := pacer.runUntil time
      Walk.controls feeds stamp ⟨[], { s with pacer := some pacer }.changed⟩ calls
  | _ => []

/-- **The controls of a run**, in order: each with its time and the station that makes it. -/
def controls (s : Station α) : List (Int × Action α) → List (Int × Station α)
  | [] => []
  | (stamp, a) :: run => s.controlsOf stamp a ++ controls (s.perform stamp a).station run

theorem controlsOf_quiet (s : Station α) (stamp : Int) {a : Action α} (ha : a.isQuiet = true) :
    s.controlsOf stamp a = [] := by
  cases a with
  | reset | control | runUntil _ _ => cases ha
  | _ => rfl

/-! ## §2. Induction along the controls. -/

section Induction

variable {P : Station α → List (Int × Station α) → Prop}
  (pacer : ∀ s past pacer, P s past → P { s with pacer := pacer } past)
  (quiet : ∀ s past stamp (a : Action α), a.isQuiet = true → P s past →
    P (s.perform stamp a).station past)
  (control : ∀ s past stamp, P s past → P (s.control stamp).station (past ++ [(stamp, s)]))

include quiet control

/-- What is kept along the calls of a paced run. -/
theorem Walk.controls_induction (feeds : List (List (Item α))) (stamp : Int)
    (calls : List (Call α)) {w : Walk α} {past : List (Int × Station α)}
    (hw : P w.performed.station past) :
    P (calls.foldl (Walk.call feeds stamp) w).performed.station
      (past ++ w.controls feeds stamp calls) := by
  induction calls generalizing w past with
  | nil =>
    rw [Walk.controls, List.append_nil]
    exact hw
  | cons call calls ih =>
    cases call with
    | sample time =>
      -- The items of its turn are pushed first; both actions are quiet.
      have hfed := quiet _ _ stamp (.feed (itemsAt feeds w.samples.length)) rfl hw
      exact ih (quiet _ _ stamp .sample rfl hfed)
    | control time =>
      have hcontrolled := ih (w := w.call feeds stamp (.control time)) (control _ _ stamp hw)
      rw [List.append_assoc] at hcontrolled
      exact hcontrolled

include pacer

/-- What the calls keep, one action keeps; of a reset it has to be known. -/
theorem controlsOf_induction {s : Station α} {past : List (Int × Station α)} (hs : P s past)
    (stamp : Int) {a : Action α} (hreset : a = .reset → P s.reset.station past) :
    P (s.perform stamp a).station (past ++ s.controlsOf stamp a) := by
  by_cases ha : a.isQuiet = true
  · rw [controlsOf_quiet s stamp ha, List.append_nil]
    exact quiet s past stamp a ha hs
  · cases a with
    | reset =>
      show P s.reset.station (past ++ [])
      rw [List.append_nil]
      exact hreset rfl
    | control => exact control s past stamp hs
    | runUntil time feeds =>
      show P (s.runUntil time feeds stamp).station _
      unfold runUntil controlsOf
      cases s.pacer with
      | none =>
        rw [List.append_nil]
        exact hs
      | some p =>
        exact Walk.controls_induction quiet control feeds stamp _ (pacer s past _ hs)
    | _ => exact absurd rfl ha

/-- **What the calls keep, a run keeps**, as long as its resets keep it too. -/
theorem run_induction {s : Station α} {past : List (Int × Station α)} (hs : P s past)
    {run : List (Int × Action α)}
    (hreset : ∀ x ∈ run, x.2 = .reset → ∀ s past, P s past → P s.reset.station past) :
    P (s.after run) (past ++ s.controls run) := by
  induction run generalizing s past with
  | nil =>
    rw [controls, List.append_nil]
    exact hs
  | cons x run ih =>
    obtain ⟨stamp, a⟩ := x
    have hstep := controlsOf_induction pacer quiet control hs stamp fun ha =>
      hreset _ List.mem_cons_self ha s past hs
    rw [controls, ← List.append_assoc]
    exact ih hstep fun y hy => hreset y (List.mem_cons_of_mem _ hy)

/-- **What the calls keep, a run keeps** that contains no reset. -/
theorem controls_induction {s : Station α} {past : List (Int × Station α)} (hs : P s past)
    {run : List (Int × Action α)} (hrun : ∀ x ∈ run, x.2 ≠ .reset) :
    P (s.after run) (past ++ s.controls run) :=
  run_induction pacer quiet control hs fun x hx hreset => absurd hreset (hrun x hx)

end Induction

end Station

end CapacityControl.Control
