/-
  CapacityControl.Proofs.Control.Independence
  ───────────────────────────────────────────
  DECISIONS DO NOT DEPEND ON EACH OTHER.  All machines and all cycles share one engine, and
  each inference leaves its values behind in it, also one that fails half-way.  Whatever was
  left behind, the engine can be restarted to the surface (`Engine.HasPast.restart`), so what is
  decided for a machine depends on its own residuals and on the error alone
  (`Controller.decisions_independent`).
-/
import CapacityControl.Proofs.Control.Reachable

namespace CapacityControl

open Control (Residuals alone inferAll surface Station Controller)

variable {α : Type} [Scalar α]

/-! ## §1. Engines with a past. -/

namespace Fuzzy

/-- **What an engine of a controller can have gone through**: it is new, or it is found in a
controller to which anything has happened, or it has been used for one more cycle, over any
machines and any error, which may have failed. -/
inductive Engine.HasPast : Engine α → Prop
  | new : HasPast surface
  | controller {s : Station α} (hs : s.Reachable) {c : Controller α}
      (hc : s.manager.policy = .fuzzy c) : HasPast c.engine
  | cycle {e : Engine α} (he : HasPast e) (error : α) (ms : List (Residuals α)) :
      HasPast (inferAll e error ms).engine

/-- **Nothing of the past survives a restart.** -/
theorem Engine.HasPast.restart [OrderedScalar α] {e : Engine α} (he : e.HasPast) :
    e.restart = surface := by
  induction he with
  | new => exact Control.restart_surface
  | controller hs hc => exact (hs.sound.policy _ hc).restart
  | cycle _ error ms ih => exact Control.restart_inferAll ih error ms

end Fuzzy

namespace Control

open Fuzzy

/-! ## §2. Cycles. -/

/-- A cycle over one machine decides for it alone. -/
theorem inferAll_singleton {e : Engine α} (he : e.restart = surface) (error : α)
    (m : Residuals α) :
    (inferAll e error [m]).result = (alone error m).map fun deltas => [deltas] := by
  rw [inferAll_result he, List.mapM_cons, List.mapM_nil]
  cases alone error m with
  | error x => rfl
  | ok deltas => rfl

/-- What a machine gets from a cycle is what it gets alone, in its place. -/
theorem getElem?_map_alone {error : α} {ms : List (Residuals α)} {deltas : List (PerResource α)}
    (h : ms.map (alone error) = deltas.map .ok) (i : Nat) :
    ms[i]?.map (alone error) = deltas[i]?.map .ok := by
  rw [← List.getElem?_map, ← List.getElem?_map, h]

namespace Controller

/-- **Machines are decided independently.**  Whatever an engine has gone through, a cycle over
one machine comes to the same as on a new engine.  A cycle over many succeeds exactly if each of
them alone is decided, with just these decisions; otherwise it fails with the error of the first
one that fails alone.  So in another order the machines get the same changes; and a machine gets
the same from any two cycles that decide it for the same error, whichever other machines take
part and whatever the engines went through before. -/
theorem decisions_independent [OrderedScalar α] {e : Engine α} (he : e.HasPast) (error : α)
    (ms : List (Residuals α)) :
    (∀ m, (inferAll e error [m]).result = (alone error m).map fun deltas => [deltas])
      ∧ (∀ deltas, (inferAll e error ms).result = .ok deltas
          ↔ ms.map (alone error) = deltas.map .ok)
      ∧ (∀ x, (inferAll e error ms).result = .error x
          ↔ ∃ before m after, ms = before ++ m :: after
            ∧ (∀ k ∈ before, ∃ deltas, alone error k = .ok deltas) ∧ alone error m = .error x)
      ∧ (∀ ms' deltas, ms.Perm ms' → (inferAll e error ms).result = .ok deltas →
          ∃ deltas', (inferAll e error ms').result = .ok deltas'
            ∧ (ms.zip deltas).Perm (ms'.zip deltas'))
      ∧ ∀ {e' : Engine α}, e'.HasPast → ∀ ms' deltas deltas',
          (inferAll e error ms).result = .ok deltas →
          (inferAll e' error ms').result = .ok deltas' →
          ∀ i j : Nat, ms[i]? = ms'[j]? → deltas[i]? = deltas'[j]? := by
  have hrestart := he.restart
  refine ⟨inferAll_singleton hrestart error, inferAll_ok_iff hrestart error ms, fun x => ?_,
    fun ms' deltas hperm hok => ?_, fun he' ms' deltas deltas' hok hok' i j hsame => ?_⟩
  · rw [inferAll_result hrestart]
    exact mapM_eq_error_first_iff (alone error) ms x
  · rw [inferAll_ok_iff hrestart] at hok
    obtain ⟨deltas', hok', hzip⟩ := exists_map_eq_ok_of_perm hperm hok
    exact ⟨deltas', (inferAll_ok_iff hrestart error ms' deltas').mpr hok', hzip⟩
  · rw [inferAll_ok_iff hrestart] at hok
    rw [inferAll_ok_iff he'.restart] at hok'
    have hi := getElem?_map_alone hok i
    have hj := getElem?_map_alone hok' j
    -- Both are what the machine gets alone.
    rw [hsame, hj] at hi
    exact (Option.map_injective (fun _ _ h => Except.ok.inj h) hi).symm

/-- A cycle that fails at the hole leaves an engine behind that decides two machines as a new
one decides the second of them alone. -/
theorem decisions_independent_trial :
    let first : Residuals Extended := ("first", ⟨0.5, 0.5⟩)
    let second : Residuals Extended := ("second", ⟨0.0, 0.25⟩)
    let failed := inferAll surface 0.3 [second, first]
    failed.result.isOk = false
      ∧ failed.engine.HasPast
      ∧ ∃ deltas deltas', (inferAll failed.engine 0.1 [first, second]).result = .ok deltas
          ∧ (inferAll surface 0.1 [second]).result = .ok deltas' ∧ deltas[1]? = deltas'[0]? := by
  intro first second failed
  have hpast : failed.engine.HasPast := .cycle .new 0.3 [second, first]
  have hboth : (inferAll failed.engine 0.1 [first, second]).result.isOk = true := by
    decide +kernel
  have hone : (inferAll (surface : Engine Extended) 0.1 [second]).result.isOk = true := by
    decide +kernel
  obtain ⟨deltas, hdeltas⟩ := exists_ok_of_isOk hboth
  obtain ⟨deltas', hdeltas'⟩ := exists_ok_of_isOk hone
  exact ⟨by decide +kernel, hpast, deltas, deltas', hdeltas, hdeltas',
    (decisions_independent hpast 0.1 [first, second]).2.2.2.2 .new _ _ _ hdeltas hdeltas' 1 0 rfl⟩

end Controller

end Control

end CapacityControl
