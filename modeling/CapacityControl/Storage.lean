/-
  CapacityControl.Storage
  ───────────────────────
  FILES.  A storage knows the directories that exist, the one paths start from, and the
  text of every file.  `Storage.locate` follows a path to the place where a file can be
  created, or says at which obstacle the path ends.
-/

namespace CapacityControl

/-! ## §1. Obstacles. -/

/-- Why a path does not lead to a file. -/
inductive FileFault where
  | notFound
  | notDirectory
  | isDirectory
  | nameTooLong
  /-- The path holds a NUL, which no name can. -/
  | nulInName
  deriving DecidableEq, Repr

/-- The wording of an obstacle. -/
def FileFault.text : FileFault → String
  | notFound => "No such file or directory (os error 2)"
  | notDirectory => "Not a directory (os error 20)"
  | isDirectory => "Is a directory (os error 21)"
  | nameTooLong => "File name too long (os error 36)"
  | nulInName => "file name contained an unexpected NUL byte"

/-! ## §2. Places. -/

/-- The place of a file or directory: the names on the way from the root. -/
abbrev Place := List String

/-- The parts of a path between its slashes. -/
def pathParts : List Char → List (List Char)
  | [] => [[]]
  | c :: cs =>
    match pathParts cs with
    | [] => [[]]
    | part :: parts => if c = '/' then [] :: part :: parts else (c :: part) :: parts

/-- Directories, the directory that relative paths start from, and files with their text. -/
structure Storage where
  directories : List Place
  current : Place
  files : List (Place × String)

namespace Storage

/-- An empty working directory. -/
def fresh : Storage := ⟨[[], ["tmp"], ["tmp", "work"]], ["tmp", "work"], []⟩

/-- The text of the file at a place. -/
def textAt? (s : Storage) (place : Place) : Option String := s.files.lookup place

/-- The longest name, in bytes. -/
def nameLimit : Nat := 255

/-- The longest path, in bytes. -/
def pathLimit : Nat := 4095

/-- Enters a directory by its name. -/
def enter (s : Storage) (here : Place) (name : String) : Except FileFault Place :=
  let place := here ++ [name]
  if name = "" || name = "." then .ok here
  else if name = ".." then .ok here.dropLast
  else if nameLimit < name.utf8ByteSize then .error .nameTooLong
  else if place ∈ s.directories then .ok place
  else if (s.textAt? place).isSome then .error .notDirectory
  else .error .notFound

/-- Follows the names of a path, the last of which is to name a file. -/
def follow (s : Storage) : Place → List String → Except FileFault Place
  | _, [] => .error .isDirectory
  | here, [name] =>
    let place := here ++ [name]
    if name = "." || name = ".." || place ∈ s.directories then .error .isDirectory
    else if nameLimit < name.utf8ByteSize then .error .nameTooLong
    else .ok place
  | here, name :: next :: names => do
    let here ← s.enter here name
    follow s here (next :: names)

/-- The names of a path without the empty ones that slashes at its end leave. -/
def withoutEnd (names : List String) : List String :=
  (names.reverse.dropWhile (· == "")).reverse

/-- **The place of the file a path names**, whether there is one already or not.  A path that
ends in a slash names a directory. -/
def locate (s : Storage) (path : String) : Except FileFault Place := do
  let names := (pathParts path.toList).map String.ofList
  if path.toList.contains '\x00' then .error .nulInName
  else if path = "" then .error .notFound
  else if pathLimit < path.utf8ByteSize then .error .nameTooLong
  else
    let start := if path.toList.head? = some '/' then [] else s.current
    let place ← s.follow start (withoutEnd names)
    if path.toList.getLast? = some '/' then .error .isDirectory else .ok place

/-- Puts a text at a place, in the place of what was there. -/
def put (s : Storage) (place : Place) (text : String) : Storage :=
  { s with files := (place, text) :: s.files.filter (·.1 != place) }

/-- Adds to the text at a place. -/
def append (s : Storage) (place : Place) (text : String) : Storage :=
  s.put place ((s.textAt? place).getD "" ++ text)

/-- The text of the file a path names. -/
def read? (s : Storage) (path : String) : Option String :=
  match s.locate path with
  | .ok place => s.textAt? place
  | .error _ => none

/-- Writes a file. -/
def write (s : Storage) (path text : String) : Except FileFault Storage :=
  (s.locate path).map fun place => s.put place text

end Storage

end CapacityControl
