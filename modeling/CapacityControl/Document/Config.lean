/-
  CapacityControl.Document.Config
  ───────────────────────────────
  CONFIGURATIONS IN DOCUMENTS.  A configuration is a record; the two periods and the
  targets have to be there, all else may be left out.  `config?` reads what `ofConfig`
  writes.
-/
import CapacityControl.Document.Fuzzy
import CapacityControl.Control.Config

namespace CapacityControl.Document

open Stats Control

variable {α : Type} [Scalar α]

/-! ## §1. Reading. -/

/-- Reads an estimator that stands in `enclosing` lists and mappings. -/
def estimator? (d : Dialect α) (enclosing : Nat) (n : Node) : Option (EstimatorKind α) := do
  let t ← d.tagged? enclosing n
  match t.kind with
  | "mean" => if Dialect.isBare t.body then some .mean else none
  | "quantile" =>
    match ← d.taggedReals? ["probability"] t.body with
    | [p] => some (.quantile p)
    | _ => none
  | _ => none

/-- Reads a target; its estimator is the mean if it names none. -/
def target? (d : Dialect α) (n : Node) : Option (Target α) := do
  match ← d.record? ["value", "estimator"] n with
  | [some value, estimator] =>
    let kind ← match estimator with
      | some n => estimator? d 3 n
      | none => some .mean
    some ⟨← d.real? value, kind⟩
  | _ => none

/-- Reads the entries of the targets; of several for one metric the last counts. -/
def targetEntries? (d : Dialect α) :
    List (Node × Node) → PerMetric (Option (Target α)) → Option (PerMetric (Option (Target α)))
  | [], ts => some ts
  | (k, v) :: es, ts => do
    let m ← named? d Metric.ofName? k
    let t ← target? d v
    targetEntries? d es (ts.set m (some t))

/-- Reads the targets. -/
def targets? (d : Dialect α) (n : Node) : Option (PerMetric (Option (Target α))) :=
  match n with
  | .map entries => targetEntries? d entries (.const none)
  | n => if d.isEmptyMap n then some (.const none) else none

/-- Reads a text that may be absent. -/
def optionalText? (d : Dialect α) (n : Node) : Option (Option String) :=
  if d.isAbsent n then some none else (d.text? n).map some

/-- The names of the fields, in order. -/
def configFields : List String :=
  ["sampling_time_ms", "control_time_ms", "smoothing_factor", "data_log", "targets",
    "reset_estimation_every_interval"]

/-- Reads a field that may be left out. -/
def orElse {β : Type} (read : Node → Option β) (standard : β) : Option Node → Option β
  | some n => read n
  | none => some standard

/-- **Reads a configuration.** -/
def config? (d : Dialect α) (n : Node) : Option (Config α) := do
  match ← d.record? configFields n with
  | [some sampling, some control, factor, dataLog, some targets, resets] =>
    some {
      samplingMs := ← d.real? sampling
      controlMs := ← d.real? control
      smoothingFactor := ← orElse d.real? Config.standardFactor factor
      dataLog := ← orElse (optionalText? d) none dataLog
      targets := ← targets? d targets
      resetsEachInterval := ← orElse d.flag? true resets }
  | _ => none

/-! ## §2. Writing. -/

/-- A field. -/
def entry (name : String) (n : Node) : Node × Node := (.string name, n)

/-- Writes an estimator; `real` writes a real. -/
def ofEstimator (real : α → Node) : EstimatorKind α → Node
  | .mean => .map [entry "kind" (.string "mean")]
  | .quantile p => .map [entry "kind" (.string "quantile"), entry "probability" (real p)]

/-- Writes a target. -/
def ofTarget (real : α → Node) (t : Target α) : Node :=
  .map [entry "value" (real t.value), entry "estimator" (ofEstimator real t.estimator)]

/-- Writes the targets, in the order of the metrics. -/
def ofTargets (real : α → Node) (ts : PerMetric (Option (Target α))) : Node :=
  .map (ts.entries.map fun (m, t) => entry m.name (ofTarget real t))

/-- **Writes a configuration**; a log that there is not is left out. -/
def ofConfig (real : α → Node) (c : Config α) : Node :=
  .map ([entry "sampling_time_ms" (real c.samplingMs),
      entry "control_time_ms" (real c.controlMs),
      entry "smoothing_factor" (real c.smoothingFactor)] ++
    (c.dataLog.toList.map fun path => entry "data_log" (.string path)) ++
    [entry "targets" (ofTargets real c.targets),
      entry "reset_estimation_every_interval"
        (.plain (if c.resetsEachInterval then "true" else "false"))])

end CapacityControl.Document
