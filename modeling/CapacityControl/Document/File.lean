/-
  CapacityControl.Document.File
  ─────────────────────────────
  CONFIGURATION FILES.  A configuration is checked after it is read and before it is
  written, so a file that was saved can be loaded again.
-/
import CapacityControl.Document.Config
import CapacityControl.Document.Yaml.Read
import CapacityControl.Document.Yaml.Write
import CapacityControl.Scalar.Binary64

namespace CapacityControl.Document

open Control

variable {α : Type} [Scalar α]

/-! ## §1. Reading. -/

/-- Reads a configuration from a text, unchecked. -/
def configText? (format : DocumentFormat) (text : String) : Option (Config α) :=
  match format with
  | .json => (Json.read? text).bind (config? Json.dialect)
  | .yaml => (Yaml.read? text).bind (config? Yaml.dialect)

/-- Reads and checks a configuration. -/
def ofText (format : DocumentFormat) (text : String) : Except (Control.Error α) (Config α) :=
  match configText? format text with
  | none => .error (.document format)
  | some config => config.check.map fun _ => config

/-- The text of a file. -/
def fileText (storage : Storage) (path : String) : Except FileFault String := do
  match storage.textAt? (← storage.locate path) with
  | some text => .ok text
  | none => .error .notFound

/-- **Loads a configuration** from a file. -/
def load (format : DocumentFormat) (storage : Storage) (path : String) :
    Except (Control.Error α) (Config α) := do
  let text ← (fileText storage path).mapError .file
  ofText format text

/-! ## §2. Writing. -/

/-- The text of a configuration; `real` gives the text of a real. -/
def toText (real : α → String) (config : Config α) : String :=
  match ofConfig (fun x => .plain (real x)) config with
  | .map entries => Yaml.write α entries
  | _ => ""

/-- **Saves a configuration** to a file. -/
def save (real : α → String) (storage : Storage) (path : String) (config : Config α) :
    Except (Control.Error α) Storage := do
  config.check
  (storage.write path (toText real config)).mapError .file

/-- The text of a binary number in a configuration. -/
def realText (x : Float) : String := Binary64.written Decimal.Layout.configuration x

end CapacityControl.Document
