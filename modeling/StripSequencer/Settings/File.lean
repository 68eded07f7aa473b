import StripSequencer.Settings.Check
import StripSequencer.Text.Folding
import StripSequencer.Toml.Document
import StripSequencer.Toml.Writer

/-!
# `StripSequencer.Settings.File` — settings in files

Settings stand in a TOML file with one table for each part. What a file does not say keeps its default,
and what it says beyond the settings is passed over.

## Contents
- `Settings.text`: the file of settings.
- `Settings.parse?`: the settings in a file.
- `Settings.load`, `Settings.find`, `Settings.save`.
-/

namespace StripSequencer.Settings

/-- The name of a file of settings. -/
def fileName : Text := "ledseq.toml"

/-! ## Writing -/

/-- The value of a setting as it is written. -/
def plain (s : Settings) : Setting → Toml.Plain
  | .leds => .integer s.leds
  | .pixelPolicy => .string s.pixelPolicy
  | .capacity => .integer s.capacity
  | .maxSteps => .integer s.maxSteps
  | .source => .string s.source
  | .image => .string s.image
  | .tick => .string s.tick.text
  | .listen => .string s.listen
  | .journal => .string s.journal

/-- The file of settings. -/
def text (s : Settings) : Text :=
  Toml.fileText (Setting.tables.map fun name =>
    (name, (Setting.every.filter (·.table = name)).map fun f => (f.key, s.plain f)))

/-! ## Reading -/

/-- The text that a duration is read from. -/
def durationText? : Toml.Scalar → Option String
  | .string s => some s
  | .integer n => some (toString n.toInt)
  | _ => none

/-- The settings with one setting read from a node. -/
def set? (s : Settings) (f : Setting) (node : Toml.Node) : Option Settings :=
  match f, node with
  | .leds, .scalar (.integer n) => some { s with leds := n }
  | .pixelPolicy, .scalar (.string t) => some { s with pixelPolicy := .ofString t }
  | .capacity, .scalar (.integer n) => some { s with capacity := n }
  | .maxSteps, .scalar (.integer n) => some { s with maxSteps := n }
  | .source, .scalar (.string t) => some { s with source := .ofString t }
  | .image, .scalar (.string t) => some { s with image := .ofString t }
  | .listen, .scalar (.string t) => some { s with listen := .ofString t }
  | .journal, .scalar (.string t) => some { s with journal := .ofString t }
  | .tick, .scalar v => do
    let d ← (Duration.parse (← durationText? v)).toOption
    return { s with tick := d }
  | _, _ => none

/-- The settings with the members of a table read. -/
def readTable? (table : String) (s : Settings) (members : Toml.Members) : Option Settings :=
  members.foldlM (fun s (name, node) =>
    match Setting.every.find? fun f => f.table = table && sameName f.key name with
    | none => some s
    | some f => s.set? f node) s

/-- The settings with the tables of a document read. -/
def readDocument? (s : Settings) (document : Toml.Members) : Option Settings :=
  document.foldlM (fun s (name, node) =>
    match Setting.tables.find? (sameName · name) with
    | none => some s
    | some table =>
      match node with
      | .table members => s.readTable? table members
      | _ => none) s

/-- The settings in a file. -/
def parse? (data : List UInt8) : Option Settings := (Toml.document? data).bind ({} : Settings).readDocument?

/-! ## Files -/

/-- Why settings cannot be loaded from a file. -/
inductive LoadError where
  | file (path : Text) (error : FileError)
  | malformed (path : Text)
  | invalid (path : Text) (why : Invalid)
deriving DecidableEq, Repr

/-- The words for why settings cannot be loaded. -/
def LoadError.message : LoadError → String
  | .file path e => "cannot read " ++ path.display ++ ": " ++ FileTree.readMessage path e
  | .malformed path => "parse error in " ++ path.display
  | .invalid path why => "invalid " ++ path.display ++ ": " ++ why.message

/-- The settings in the file of a directory. -/
def load (files : FileTree) (directory : Text) : Except LoadError Settings :=
  let path := Path.join directory fileName
  match files.read path with
  | .error e => .error (.file path e)
  | .ok data =>
    match parse? data with
    | none => .error (.malformed path)
    | some s =>
      match s.validate with
      | .error why => .error (.invalid path why)
      | .ok () => .ok { s with directory := files.absolute directory }

/-- The settings in the nearest directory, from a start upward, that has a file of them. -/
def find (files : FileTree) (start : Text) : Except LoadError (Option Settings) :=
  match (Path.upward (files.absolute start)).find? fun d => files.has (Path.join d fileName) with
  | none => .ok none
  | some directory => (load files directory).map some

/-- The file tree with settings written to the file of a directory. -/
def save (files : FileTree) (directory : Text) (s : Settings) : Except FileError FileTree :=
  files.write (Path.join directory fileName) s.text.bytes

end StripSequencer.Settings
