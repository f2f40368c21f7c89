/-
  CapacityControl.Proofs.Surface.Response
  ───────────────────────────────────────
  WHAT THE CONTROL SURFACE ANSWERS, in any arithmetic.  Fed with numbers, the surface
  never refuses, and each output depends on the residual of its own resource and on the
  error only: it is `response`, the nine cells of the rule table fired one by one and
  defuzzified (`respond_surface`).
-/
import CapacityControl.Control.Surface

namespace CapacityControl.Control

open Fuzzy

variable {α : Type} [Scalar α]

/-! ## §1. The cells of the rule table. -/

/-- A row and a column of the rule table. -/
abbrev RuleCell := ResidualTerm × ErrorTerm

/-- Every cell, row by row. -/
def ruleCells : List RuleCell := ResidualTerm.all.flatMap fun t => ErrorTerm.all.map fun u => (t, u)

theorem mem_ruleCells (cell : RuleCell) : cell ∈ ruleCells := by
  obtain ⟨t, u⟩ := cell
  cases t <;> cases u <;> decide

/-- What the table recommends in a cell. -/
def RuleCell.recommended (cell : RuleCell) : DeltaTerm := Control.recommended cell.1 cell.2

/-- The weighted degree of the rule of a cell. -/
def RuleCell.degree (residual error : α) (cell : RuleCell) : α :=
  1.0 * TNorm.minimum.apply (cell.1.shape.membership residual) (cell.2.shape.membership error)

/-- The activation that a cell causes, if its rule fires. -/
def RuleCell.activation? (residual error : α) (cell : RuleCell) : Option (Activation α) :=
  if 0.0 < cell.degree residual error then
    some ⟨DeltaTerm.all.idxOf cell.recommended, cell.degree residual error, .algebraicProduct⟩
  else none

/-- The output of a resource after an inference. -/
def response (r : Resource) (residual error : α) : Output α :=
  { deltaOutput r with activations := ruleCells.filterMap (RuleCell.activation? residual error)
    : Output α }.defuzzified

/-! ## §2. The engine once it is fed. -/

/-- The inputs with the values that an engine is fed with. -/
def fedInputs (residuals : PerResource α) (error : α) : List (Input α) :=
  [{ residualInput .cpu with value := residuals.cpu },
    { residualInput .memory with value := residuals.memory }, { errorInput with value := error }]

/-- The surface fed with residuals and an error. -/
def fedSurface (residuals : PerResource α) (error : α) : Engine α :=
  { surface with inputs := fedInputs residuals error }

/-- Every name is known, so feeding does not fail. -/
theorem feed_surface (residuals : PerResource α) (error : α) :
    feed surface residuals error = .ok (fedSurface residuals error) := rfl

/-- The rule of a cell applies to the degree of the cell. -/
theorem degree_surfaceRule (residuals : PerResource α) (error : α) (r : Resource) (cell : RuleCell) :
    1.0 * (surfaceRule (α := α) r cell.1 cell.2).condition.degree (fedInputs residuals error)
        .minimum .maximum
      = cell.degree (residuals.get r) error := by
  obtain ⟨t, u⟩ := cell
  cases r <;> cases t <;> cases u <;> rfl

/-- The firing of a cell, if there is one. -/
def RuleCell.firing? (r : Resource) (residual error : α) (cell : RuleCell) : Option (Firing α) :=
  (cell.activation? residual error).map fun a =>
    ⟨a.degree, a.implication, [⟨resourceIndex r, a.term, false⟩]⟩

/-- The rules are the cells, first for the processor and then for the memory. -/
theorem surfaceRules_eq :
    (surfaceRules : List (Rule α))
      = ruleCells.map (fun cell => surfaceRule .cpu cell.1 cell.2)
        ++ ruleCells.map (fun cell => surfaceRule .memory cell.1 cell.2) := rfl

theorem firings_fedSurface (residuals : PerResource α) (error : α) :
    (fedSurface residuals error).firings
      = ruleCells.filterMap (RuleCell.firing? .cpu residuals.cpu error)
        ++ ruleCells.filterMap (RuleCell.firing? .memory residuals.memory error) := by
  -- What the block does with one rule is what the cell does.
  have hrule : ∀ (r : Resource) (cell : RuleCell),
      (let degree := (1.0 : α) * (surfaceRule (α := α) r cell.1 cell.2).condition.degree
          (fedInputs residuals error) .minimum .maximum
        if 0.0 < degree then
          some (⟨degree, .algebraicProduct,
            (surfaceRule (α := α) r cell.1 cell.2).consequents⟩ : Firing α)
        else none)
        = cell.firing? r (residuals.get r) error := by
    intro r cell
    rw [degree_surfaceRule]
    unfold RuleCell.firing? RuleCell.activation?
    by_cases h : (0.0 : α) < cell.degree (residuals.get r) error
    · rw [if_pos h, if_pos h]
      rfl
    · rw [if_neg h, if_neg h]
      rfl
  show List.flatMap _ [_] = _
  rw [List.flatMap_singleton]
  unfold RuleBlock.firings
  show List.filterMap _ surfaceRules = _
  rw [surfaceRules_eq, List.filterMap_append, List.filterMap_map, List.filterMap_map]
  congr 1
  · exact congrArg (List.filterMap · ruleCells) (funext (hrule .cpu))
  · exact congrArg (List.filterMap · ruleCells) (funext (hrule .memory))

/-- A firing activates the output of its own resource and no other. -/
theorem activationsOf_firings (r : Resource) (residual error : α) (index : Nat) (l : List RuleCell) :
    activationsOf index (l.filterMap (RuleCell.firing? r residual error))
      = if resourceIndex r = index then l.filterMap (RuleCell.activation? residual error)
        else [] := by
  induction l with
  | nil => simp [activationsOf]
  | cons cell l ih =>
    unfold activationsOf at ih ⊢
    rw [List.filterMap_cons, List.filterMap_cons]
    unfold RuleCell.firing? at ih ⊢
    cases hcell : cell.activation? residual error with
    | none => exact ih
    | some a =>
      simp only [Option.map_some, List.flatMap_cons, ih]
      by_cases h : resourceIndex r = index
      · simp [h]
      · simp [h]

/-! ## §3. The answer. -/

theorem inferred_fedSurface (residuals : PerResource α) (error : α) :
    (fedSurface residuals error).inferred
      = [response .cpu residuals.cpu error, response .memory residuals.memory error] := by
  unfold Engine.inferred
  rw [firings_fedSurface]
  show List.mapIdx _ [deltaOutput .cpu, deltaOutput .memory] = _
  rw [List.mapIdx_cons, List.mapIdx_cons, List.mapIdx_nil]
  have happend : ∀ (index : Nat) (l k : List (Firing α)),
      activationsOf index (l ++ k) = activationsOf index l ++ activationsOf index k := by
    intro index l k
    unfold activationsOf
    exact List.flatMap_append
  have hcpu : activationsOf 0 (ruleCells.filterMap (RuleCell.firing? .cpu residuals.cpu error)
        ++ ruleCells.filterMap (RuleCell.firing? .memory residuals.memory error))
      = ruleCells.filterMap (RuleCell.activation? residuals.cpu error) := by
    rw [happend, activationsOf_firings, activationsOf_firings]
    exact List.append_nil _
  have hmemory : activationsOf (0 + 1) (ruleCells.filterMap (RuleCell.firing? .cpu residuals.cpu error)
        ++ ruleCells.filterMap (RuleCell.firing? .memory residuals.memory error))
      = ruleCells.filterMap (RuleCell.activation? residuals.memory error) := by
    rw [happend, activationsOf_firings, activationsOf_firings]
    exact List.nil_append _
  rw [hcpu, hmemory]
  rfl

/-- The surface after it was fed and run. -/
def answered (residuals : PerResource α) (error : α) : Engine α :=
  { fedSurface residuals error with
    outputs := [response .cpu residuals.cpu error, response .memory residuals.memory error] }

/-- The surface refuses what is no number and answers everything else. -/
theorem respond_eq (residuals : PerResource α) (error : α) :
    respond surface residuals error
      = match (fedInputs residuals error).find? (!·.isSet) with
        | some v => .error (.notFiniteInput v.name v.value)
        | none => .ok (answered residuals error) := by
  unfold respond
  rw [feed_surface]
  show (match (fedInputs residuals error).find? (!·.isSet) with
    | some v => Except.error (Fuzzy.Error.notFiniteInput v.name v.value)
    | none => .ok { fedSurface residuals error with
        outputs := (fedSurface residuals error).inferred }) = _
  rw [inferred_fedSurface]
  rfl

/-- **The surface answers every number**, for each resource from its own residual and the
error alone. -/
theorem respond_surface (residuals : PerResource α) (error : α)
    (hfinite : ∀ r, Scalar.isFinite (residuals.get r) = true)
    (herror : Scalar.isFinite error = true) :
    respond surface residuals error = .ok (answered residuals error) := by
  have hset : (fedInputs residuals error).find? (!·.isSet) = none := by
    have hcpu : Scalar.isFinite residuals.cpu = true := hfinite .cpu
    have hmemory : Scalar.isFinite residuals.memory = true := hfinite .memory
    simp [fedInputs, Input.isSet, hcpu, hmemory, herror]
  rw [respond_eq, hset]

/-- There is one answer only. -/
theorem eq_answered {residuals : PerResource α} {error : α} {engine : Engine α}
    (h : respond surface residuals error = .ok engine) : engine = answered residuals error := by
  rw [respond_eq] at h
  cases hfind : (fedInputs residuals error).find? (!·.isSet) with
  | some v =>
    rw [hfind] at h
    cases h
  | none =>
    rw [hfind] at h
    cases h
    rfl

/-- The change that the surface answers with is the value of the response. -/
theorem delta_answered (residuals : PerResource α) (error : α) (r : Resource) :
    delta (answered residuals error) r = (response r (residuals.get r) error).value := by
  cases r <;> rfl

end CapacityControl.Control
