import StripSequencer.Text.Glyph

/-!
# `StripSequencer.FileTree` — files and directories by path

A file tree is a snapshot of the part of a file system that a run can see. A path is resolved component
by component, as an operating system does it; `Path.clean` and `Path.join` work on the text of a path
alone. Paths and names are texts: they need not be valid UTF-8. In messages a stray byte shows as the replacement
character.

## Contents
- `Path`: absolute paths, `clean`, `join`, and the directories `upward` of one.
- `FileTree`: `read`, `write`, `has`, and `FileError` with its words.
-/

namespace StripSequencer

namespace Path

/-- What stands between two components. -/
def slash : Glyph := .char '/'

/-- The name of a directory inside itself. -/
def here : Text := "."

/-- The name of the directory above. -/
def above : Text := ".."

/-- A path that starts at the root. -/
def isAbsolute (path : Text) : Bool := path.head? = some slash

/-- The components of a path between its slashes. -/
def components (path : Text) : List Text := segments (· = slash) path

/-- Takes one more component onto `seen`, which holds the components so far, last first. A `..` takes
back the component before it; at the root it has no effect. -/
def cleanStep (rooted : Bool) (seen : List Text) (component : Text) : List Text :=
  if component = [] ∨ component = here then seen
  else if component = above then
    match seen with
    | [] => if rooted then [] else [above]
    | last :: before => if last = above then above :: seen else before
  else component :: seen

/-- Components with a slash between them. -/
def joined (parts : List Text) : Text := [slash].intercalate parts

/-- The shortest path with the same meaning, as far as the text alone tells. -/
def clean (path : Text) : Text :=
  let parts := ((components path).foldl (cleanStep (isAbsolute path)) []).reverse
  let body := joined parts
  if isAbsolute path then slash :: body else if body = [] then here else body

/-- Two paths one after the other, cleaned; an empty one is left out. -/
def join (directory path : Text) : Text :=
  if directory = [] then if path = [] then [] else clean path
  else if path = [] then clean directory
  else clean (directory ++ slash :: path)

/-- A path as seen from a directory: an absolute path is its own, any other one is joined. -/
def within (directory path : Text) : Text := if isAbsolute path then clean path else join directory path

/-- The path with these components below the root. -/
def ofComponents (parts : List Text) : Text := slash :: joined parts

/-- An absolute path and the directories above it, nearest first. -/
def upward (path : Text) : List Text :=
  let parts := (components (clean path)).filter (· ≠ [])
  (List.range (parts.length + 1)).map fun n => ofComponents (parts.take (parts.length - n))

end Path

/-- The ways to a file fails. -/
inductive FileError where
  | missing
  | isDirectory
  | notDirectory
  | invalid
deriving DecidableEq, Repr

/-- The words for a failure. -/
def FileError.text : FileError → String
  | .missing => "no such file or directory"
  | .isDirectory => "is a directory"
  | .notDirectory => "not a directory"
  | .invalid => "invalid argument"

/-- What stands at a place of a file tree. -/
inductive FileNode where
  | file (content : List UInt8)
  | directory
deriving DecidableEq, Repr

/-- Files and directories, each with the components of its place. The parents of what is there are there
too. -/
structure FileTree where
  nodes : List (List Text × FileNode) := []
  /-- The directory that relative paths start at. -/
  current : List Text := []
deriving Repr

namespace FileTree

/-- A path as seen from the current directory. -/
def absolute (t : FileTree) (path : Text) : Text := Path.within (Path.ofComponents t.current) path

/-- What stands at a place. -/
def nodeAt? (t : FileTree) (place : List Text) : Option FileNode :=
  match t.nodes.lookup place with
  | some node => some node
  | none => if place.isEmpty || t.nodes.any fun (p, _) => place.isPrefixOf p then some .directory else none

/-- Goes one component further from a place. Only a directory can be left by `..`, by `.` or by a
name. -/
def descend (t : FileTree) (place : List Text) (component : Text) : Except FileError (List Text) :=
  match t.nodeAt? place with
  | none => .error .missing
  | some (.file _) => .error .notDirectory
  | some .directory =>
    if component = [] ∨ component = Path.here then .ok place
    else if component = Path.above then .ok place.dropLast
    else .ok (place ++ [component])

/-- The place that a path leads to. Its last component need not exist. -/
def resolve (t : FileTree) (path : Text) : Except FileError (List Text) :=
  if path = [] then .error .missing
  else if path.contains (.char (Char.ofNat 0)) then .error .invalid
  else
    let start := if Path.isAbsolute path then [] else t.current
    (Path.components path).foldlM t.descend start

/-- The content of a file. -/
def read (t : FileTree) (path : Text) : Except FileError (List UInt8) := do
  let place ← t.resolve path
  match t.nodeAt? place with
  | none => .error .missing
  | some .directory => .error .isDirectory
  | some (.file content) => .ok content

/-- Something stands at a path. -/
def has (t : FileTree) (path : Text) : Bool :=
  match t.resolve path with
  | .ok place => (t.nodeAt? place).isSome
  | .error _ => false

/-- The tree with a file written; its directory has to exist. -/
def write (t : FileTree) (path : Text) (content : List UInt8) : Except FileError FileTree := do
  let place ← t.resolve path
  match t.nodeAt? place with
  | some .directory => .error .isDirectory
  | _ =>
    match t.nodeAt? place.dropLast with
    | some .directory => .ok { t with nodes := (place, .file content) :: t.nodes }
    | _ => .error .missing

/-- The words for a file that cannot be read. A directory is found out only when it is read. -/
def readMessage (path : Text) : FileError → String
  | .isDirectory => "read " ++ path.display ++ ": " ++ FileError.isDirectory.text
  | e => "open " ++ path.display ++ ": " ++ e.text

/-- The words for a file that cannot be written. -/
def writeMessage (path : Text) (e : FileError) : String := "open " ++ path.display ++ ": " ++ e.text

end FileTree

end StripSequencer
