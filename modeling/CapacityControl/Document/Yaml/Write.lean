/-
  CapacityControl.Document.Yaml.Write
  ───────────────────────────────────
  WRITING YAML.  Mappings and lists are written in blocks, an entry or item per line, what
  stands inside a mapping two columns further right; empty ones are written as `{}` and
  `[]`.  Unquoted scalars are written as they are.
-/
import CapacityControl.Document.Node
import CapacityControl.Document.Yaml.Style

namespace CapacityControl.Document.Yaml

/-- How much further right a part stands. -/
def indentStep : Nat := 2

/-- So many spaces. -/
def spaces (n : Nat) : List Char := List.replicate n ' '

/-- A string behind a key whose line is indented to a column, up to the end of its last line. -/
def stringText (α : Type) [Scalar α] (column : Nat) (s : String) : List Char :=
  let cs := s.toList
  match style α s with
  | .plain => cs ++ ['\n']
  | .single => single cs ++ ['\n']
  | .double => double cs ++ ['\n']
  | .literal =>
    let lines := blockLines (spaces (column + indentStep)) true cs
    '|' :: blockSigns indentStep cs ++ '\n' :: lines ++
      (if cs.getLast?.any isBreak then [] else ['\n'])

/-- A key. -/
def keyText (α : Type) [Scalar α] : Node → List Char
  | .scalar true s =>
    match style α s with
    | .plain => s.toList
    | .single => single s.toList
    | _ => double s.toList
  | .scalar false s => s.toList
  | _ => []

mutual

/-- A node behind the sign that introduces it, up to the end of its last line. -/
def nodeText (α : Type) [Scalar α] (column : Nat) : Node → List Char
  | .scalar true s => ' ' :: stringText α column s
  | .scalar false s => ' ' :: s.toList ++ ['\n']
  | .garbled => [' ', '\'', '\'', '\n']
  | .list [] => [' ', '[', ']', '\n']
  | .list (n :: ns) => '\n' :: itemsText α column (n :: ns)
  | .map [] => [' ', '\x7b', '\x7d', '\n']
  | .map (e :: es) => '\n' :: entriesText α (column + indentStep) (e :: es)

/-- The items of a list, each behind a dash. -/
def itemsText (α : Type) [Scalar α] (column : Nat) : List Node → List Char
  | [] => []
  | n :: ns => spaces column ++ '-' :: nodeText α column n ++ itemsText α column ns

/-- The entries of a mapping, each on a line of its own. -/
def entriesText (α : Type) [Scalar α] (column : Nat) : List (Node × Node) → List Char
  | [] => []
  | (k, v) :: es =>
    spaces column ++ keyText α k ++ ':' :: nodeText α column v ++ entriesText α column es

end

/-- **The text of a document** that is a mapping. -/
def write (α : Type) [Scalar α] (entries : List (Node × Node)) : String :=
  String.ofList (if entries.isEmpty then ['\x7b', '\x7d', '\n'] else entriesText α 0 entries)

end CapacityControl.Document.Yaml
