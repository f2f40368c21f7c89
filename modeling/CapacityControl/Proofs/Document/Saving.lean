/-
  CapacityControl.Proofs.Document.Saving
  ──────────────────────────────────────
  SAVED CONFIGURATIONS LOAD BACK.  A record that is written with the fields it has reads
  as those fields, whichever are left out (`fillAll?_written`).  So the tree of a
  configuration holds that configuration (`config?_ofConfig`), and a file that a valid
  configuration was saved to loads as the same configuration (`load_save`).

  What the format has to do for it is stated about the one text that is written: every
  real in it reads as itself, and the text reads as the tree it was written from, up to
  strings that need no quotes.
-/
import CapacityControl.Document.File
import CapacityControl.Proofs.Document.Settled
import CapacityControl.Proofs.Log.Rows

namespace CapacityControl.Document

open Stats Control Yaml Dialect

/-! ## §1. Written records. -/

/-- The entries of a record that gives these values, in the order of its fields. -/
def written (fields : List String) (slots : Slots) : List (Node × Node) :=
  (fields.zip slots).filterMap fun (name, slot) => slot.map (entry name)

/-- Filling goes on behind the slots of the fields `before`. -/
theorem fillAll?_written_behind {index? : Node → Option (Option Nat)} {all : List String}
    (hindex : ∀ name, index? (.string name) = some (all.idxOf? name)) (hall : all.Nodup)
    (fields : List String) : ∀ (before : List String) (filled slots : Slots),
      all = before ++ fields → filled.length = before.length → slots.length = fields.length →
        fillAll? index? (written fields slots) (filled ++ fields.map fun _ => none)
          = some (filled ++ slots) := by
  -- On the fields that are still to come: an entry goes to the place right behind the filled
  -- slots, since no field before has its name, and a value that is not given leaves its slot.
  induction fields with
  | nil =>
    intro before filled slots _ _ hlength
    obtain rfl := List.length_eq_zero_iff.mp hlength
    rfl
  | cons name fields ih =>
    intro before filled slots hsplit hfilled hlength
    match slots, hlength with
    | slot :: slots, hlength =>
      have hnext := ih (before ++ [name]) (filled ++ [slot]) slots (by simp [hsplit])
        (by simp [hfilled]) (by simpa using hlength)
      rw [List.append_assoc, List.append_assoc] at hnext
      cases slot with
      | none => exact hnext
      | some v =>
        have hplace : all.idxOf? name = some filled.length := by
          subst hsplit
          refine List.idxOf?_eq_some_iff.mpr ⟨by simp [hfilled], by simp [hfilled], ?_⟩
          intro j hj heq
          rw [List.getElem_append_left (hfilled ▸ hj)] at heq
          exact (List.nodup_append.mp hall).2.2 _ (List.getElem_mem _) _ (by simp) heq
        have hfill : fill? (filled ++ none :: fields.map fun _ => none) filled.length v
            = some (filled ++ some v :: fields.map fun _ => none) := by
          simp [fill?]
        show fillAll? index? (entry name v :: written fields slots) _ = _
        simp only [fillAll?, entry, hindex, hplace, Option.bind_eq_bind, Option.bind_some,
          List.map_cons, hfill]
        exact hnext

/-- **A written record** reads as the values it was written with. -/
theorem fillAll?_written {index? : Node → Option (Option Nat)} {fields : List String}
    (hindex : ∀ name, index? (.string name) = some (fields.idxOf? name))
    (hfields : fields.Nodup) {slots : Slots} (hlength : slots.length = fields.length) :
    fillAll? index? (written fields slots) (fields.map fun _ => none) = some slots :=
  fillAll?_written_behind hindex hfields fields [] [] slots rfl rfl hlength

variable {α : Type} [Scalar α]

theorem record?_written {fields : List String} (hfields : fields.Nodup) {slots : Slots}
    (hlength : slots.length = fields.length) :
    (dialect (α := α)).record? fields (.map (written fields slots)) = some slots :=
  fillAll?_written (fun _ => rfl) hfields hlength

theorem taggedReals?_written {fields : List String} (hfields : fields.Nodup) {slots : Slots}
    (hlength : slots.length = fields.length) :
    (dialect (α := α)).taggedReals? fields (.map (written fields slots))
      = slots.mapM fun slot => slot.bind (taggedReal? (α := α)) := by
  have hfill : fillAll? (taggedKey? (α := α) fields) (written fields slots)
      (fields.map fun _ => none) = some slots :=
    fillAll?_written (fun _ => rfl) hfields hlength
  simp only [taggedReals?, Yaml.dialect, hfill, Option.bind_eq_bind, Option.bind_some]

/-! ## §2. Written reals. -/

/-- A text that a plain scalar is taken for that real by. -/
def IsTextOf (text : String) (x : α) : Prop := resolve text = .real x

instance [DecidableEq α] (text : String) (x : α) : Decidable (IsTextOf text x) :=
  inferInstanceAs (Decidable (_ = _))

namespace IsTextOf

variable {text : String} {x : α}

theorem realText? (h : IsTextOf text x) : Yaml.realText? text = some x := by
  unfold IsTextOf resolve at h
  grind

theorem taggedReal? (h : IsTextOf text x) : Yaml.taggedReal? (.plain text) = some x := by
  unfold IsTextOf at h
  simp [Yaml.taggedReal?, Node.plain, h]

theorem admits (h : IsTextOf text x) : Yaml.admits (α := α) (.plain text) = true := by
  unfold IsTextOf at h
  simp [Yaml.admits, Node.plain, h]

end IsTextOf

/-! ## §3. Written configurations. -/

/-- The reals of an estimator. -/
def estimatorReals : EstimatorKind α → List α
  | .mean => []
  | .quantile p => [p]

/-- The reals of a configuration, in the order in which they are written. -/
def configReals (c : Config α) : List α :=
  [c.samplingMs, c.controlMs, c.smoothingFactor] ++
    c.targets.entries.flatMap fun (_, t) => t.value :: estimatorReals t.estimator

variable {real : α → String}

/-- **A written estimator** reads as that estimator. -/
theorem estimator?_ofEstimator {kind : EstimatorKind α}
    (hreal : ∀ x ∈ estimatorReals kind, IsTextOf (real x) x) :
    estimator? dialect 3 (ofEstimator (fun x => .plain (real x)) kind) = some kind := by
  cases kind with
  | mean => rfl
  | quantile p =>
    have hp : IsTextOf (real p) p := hreal p (List.mem_singleton.mpr rfl)
    have htagged : (dialect (α := α)).tagged? 3
        (ofEstimator (fun x => .plain (real x)) (.quantile p))
        = some ⟨"quantile", .map (written ["probability"] [some (.plain (real p))])⟩ := by
      have hadmits : (ofEstimator (fun x => .plain (real x)) (.quantile p)).all
          (admits (α := α)) 125 = true := by
        have hplain : Node.all (admits (α := α)) 124 (.plain (real p)) = true := hp.admits
        simp only [ofEstimator, Node.all, Node.allEntries, entry, hplain]
        rfl
      simp only [tagged?, Yaml.dialect, hadmits]
      rfl
    have hreals : (dialect (α := α)).taggedReals? ["probability"]
        (.map (written ["probability"] [some (.plain (real p))])) = some [p] := by
      rw [taggedReals?_written (by decide) rfl]
      simp [hp.taggedReal?]
    simp [estimator?, htagged, hreals]

/-- **A written target** reads as that target. -/
theorem target?_ofTarget {t : Target α}
    (hreal : ∀ x ∈ t.value :: estimatorReals t.estimator, IsTextOf (real x) x) :
    target? dialect (ofTarget (fun x => .plain (real x)) t) = some t := by
  obtain ⟨hvalue, hkind⟩ := List.forall_mem_cons.mp hreal
  have hrecord : ofTarget (fun x => .plain (real x)) t = .map (written ["value", "estimator"]
      [some (.plain (real t.value)),
        some (ofEstimator (fun x => .plain (real x)) t.estimator)]) := rfl
  have hx : (dialect (α := α)).real? (.plain (real t.value)) = some t.value := hvalue.realText?
  unfold target?
  rw [hrecord, record?_written (by decide) rfl]
  simp [estimator?_ofEstimator hkind, hx]

/-- Entries of different metrics are all taken over. -/
theorem targetEntries?_written (es : List (Metric × Target α)) :
    ∀ ts : PerMetric (Option (Target α)),
      (∀ e ∈ es, ∀ x ∈ e.2.value :: estimatorReals e.2.estimator, IsTextOf (real x) x) →
        targetEntries? dialect
          (es.map fun (m, t) => entry m.name (ofTarget (fun x => .plain (real x)) t)) ts
          = some (es.foldl (fun ts (m, t) => ts.set m (some t)) ts) := by
  induction es with
  | nil => exact fun _ _ => rfl
  | cons e es ih =>
    intro ts hreal
    obtain ⟨htarget, hrest⟩ := List.forall_mem_cons.mp hreal
    have hname : named? (dialect (α := α)) Metric.ofName? (.string e.1.name) = some e.1 := by
      cases e.1 <;> rfl
    rw [List.map_cons, List.foldl_cons]
    exact Option.bind_eq_some_iff.mpr ⟨e.1, hname,
      Option.bind_eq_some_iff.mpr ⟨e.2, target?_ofTarget htarget, ih _ hrest⟩⟩

/-- The entries of a table, put into an empty one, give the table. -/
theorem foldl_set_entries {β : Type} (ts : PerMetric (Option β)) :
    ts.entries.foldl (fun ts (m, t) => ts.set m (some t)) (.const none) = ts := by
  obtain ⟨r, t⟩ := ts
  cases r <;> cases t <;> rfl

theorem targets?_ofTargets {ts : PerMetric (Option (Target α))}
    (hreal : ∀ x ∈ ts.entries.flatMap fun (_, t) => t.value :: estimatorReals t.estimator,
      IsTextOf (real x) x) :
    targets? dialect (ofTargets (fun x => .plain (real x)) ts) = some ts := by
  refine (targetEntries?_written ts.entries (.const none) ?_).trans
    (congrArg some (foldl_set_entries ts))
  exact fun e he x hx => hreal x (List.mem_flatMap.mpr ⟨e, he, hx⟩)

omit [Scalar α] in
/-- A configuration is written as a record, its log only if there is one. -/
theorem ofConfig_eq_written (node : α → Node) (c : Config α) :
    ofConfig node c = .map (written configFields
      [some (node c.samplingMs), some (node c.controlMs), some (node c.smoothingFactor),
        c.dataLog.map .string, some (ofTargets node c.targets),
        some (.plain (if c.resetsEachInterval then "true" else "false"))]) := by
  unfold ofConfig
  cases c.dataLog <;> rfl

/-- **The tree of a configuration** holds that configuration. -/
theorem config?_ofConfig {c : Config α} (hreal : ∀ x ∈ configReals c, IsTextOf (real x) x) :
    config? dialect (ofConfig (fun x => .plain (real x)) c) = some c := by
  have hreal? {x : α} (h : IsTextOf (real x) x) :
      (dialect (α := α)).real? (.plain (real x)) = some x := h.realText?
  have hs := hreal? (hreal c.samplingMs (by simp [configReals]))
  have hk := hreal? (hreal c.controlMs (by simp [configReals]))
  have hf := hreal? (hreal c.smoothingFactor (by simp [configReals]))
  have ht : targets? dialect (ofTargets (fun x => .plain (real x)) c.targets) = some c.targets :=
    targets?_ofTargets fun x hx => hreal x (List.mem_append_right _ hx)
  have hd : orElse (optionalText? (dialect (α := α))) none (c.dataLog.map .string)
      = some c.dataLog := by
    cases c.dataLog <;> rfl
  have hr : (dialect (α := α)).flag? (.plain (if c.resetsEachInterval then "true" else "false"))
      = some c.resetsEachInterval := by
    cases c.resetsEachInterval <;> rfl
  unfold config?
  rw [ofConfig_eq_written, record?_written (by decide) rfl]
  simp only [Option.bind_eq_bind, Option.bind_some, hs, hk, ht, hd]
  simp [orElse, hf, hr]

/-! ## §4. Files. -/

/-- The text of a configuration reads as the tree it was written from, up to strings that
need no quotes. -/
def ReadsBack (real : α → String) (c : Config α) : Prop :=
  (Yaml.read? (toText real c)).map (settled α) = some (ofConfig (fun x => .plain (real x)) c)

/-- A text that is given by its characters is read from them. -/
theorem read?_ofList {cs : List Char} (hmark : cs.head? ≠ some '\ufeff') :
    Yaml.read? (String.ofList cs)
      = if cs.all isAllowed then (tokens? (unified cs)).bind document? else none := by
  unfold Yaml.read?
  rw [String.toList_ofList]
  match cs with
  | [] => rfl
  | c :: cs =>
    split
    · next heq => simp_all
    · rfl

/-- The characters of a configuration's text. -/
theorem toText_eq_ofList (real : α → String) (c : Config α) :
    toText real c = String.ofList (entriesText α 0 (written configFields
      [some (.plain (real c.samplingMs)), some (.plain (real c.controlMs)),
        some (.plain (real c.smoothingFactor)), c.dataLog.map .string,
        some (ofTargets (fun x => .plain (real x)) c.targets),
        some (.plain (if c.resetsEachInterval then "true" else "false"))])) := by
  unfold toText
  rw [ofConfig_eq_written]
  rfl

/-- **A text that reads back** holds the configuration it was written from. -/
theorem configText?_toText {c : Config α} (hreal : ∀ x ∈ configReals c, IsTextOf (real x) x)
    (htree : ReadsBack real c) : configText? .yaml (toText real c) = some c := by
  obtain ⟨n, hn, hsettled⟩ := Option.map_eq_some_iff.mp htree
  have hconfig : config? dialect (settled α n) = some c :=
    (congrArg _ hsettled).trans (config?_ofConfig hreal)
  exact Option.bind_eq_some_iff.mpr ⟨n, hn, config?_of_settled hconfig⟩

/-- A text that was put where a path leads is the text of the file. -/
theorem fileText_put {storage : Storage} {path : String} {place : Place}
    (hpath : storage.locate path = .ok place) (text : String) :
    fileText (storage.put place text) path = .ok text :=
  bind_eq_ok_iff.mpr
    ⟨place, Storage.locate_put hpath place text, by rw [Storage.textAt?_put]⟩

/-- A valid configuration that a text holds is the one that is read from it. -/
theorem ofText_of_configText? {format : DocumentFormat} {text : String} {c : Config α}
    (htext : configText? format text = some c) (hvalid : c.check = .ok ()) :
    ofText format text = .ok c := by
  unfold ofText
  rw [htext]
  show c.check.map (fun _ => c) = _
  rw [hvalid]
  rfl

/-- **Saved configurations load back.**  A valid configuration is saved wherever a file can
be, and the file loads as the same configuration: with every target, its estimator and the
parameter of that, the log or its absence, both periods, the factor and the flag. -/
theorem load_save {storage : Storage} {path : String} {place : Place} {c : Config α}
    (hvalid : c.check = .ok ()) (hpath : storage.locate path = .ok place)
    (hreal : ∀ x ∈ configReals c, IsTextOf (real x) x) (htree : ReadsBack real c) :
    ∃ saved, save real storage path c = .ok saved ∧ load .yaml saved path = .ok c := by
  refine ⟨storage.put place (toText real c), ?_, ?_⟩
  · unfold save Storage.write
    rw [hvalid, hpath]
    rfl
  · unfold load
    rw [fileText_put hpath]
    exact ofText_of_configText? (configText?_toText hreal htree) hvalid

/-- A configuration with a quantile, and with a log whose name needs quotes. -/
def quotedConfig : Config Float where
  samplingMs := 1000
  controlMs := 5000
  smoothingFactor := 0.9
  dataLog := some "run: 1.csv"
  targets := ⟨some ⟨0.5, .quantile 0.95⟩, none⟩
  resetsEachInterval := false

/-- That configuration is valid, its file can be named, its text reads back, and it is loaded as it
was saved. -/
theorem load_save_quoted :
    quotedConfig.check = .ok ()
      ∧ Storage.fresh.locate "run.yaml" = .ok ["tmp", "work", "run.yaml"]
      ∧ (∀ x ∈ configReals quotedConfig, IsTextOf (realText x) x)
      ∧ ReadsBack realText quotedConfig
      ∧ ∃ saved, save realText Storage.fresh "run.yaml" quotedConfig = .ok saved
          ∧ load .yaml saved "run.yaml" = .ok quotedConfig := by
  have hvalid : quotedConfig.check = .ok () := rfl
  have hpath : Storage.fresh.locate "run.yaml" = .ok ["tmp", "work", "run.yaml"] := rfl
  have hreal : ∀ x ∈ configReals quotedConfig, IsTextOf (realText x) x := by decide +kernel
  have htree : ReadsBack realText quotedConfig := by
    unfold ReadsBack
    rw [toText_eq_ofList, read?_ofList (by decide +kernel)]
    decide +kernel
  exact ⟨hvalid, hpath, hreal, htree, load_save hvalid hpath hreal htree⟩

end CapacityControl.Document
