import StripSequencer.Toml.Quoted
import StripSequencer.Toml.Value

/-!
# `StripSequencer.Toml.Writer` — tables of strings and integers as TOML

Tables are written one after the other with an empty line between them, and their entries are moved in by
two blanks.
-/

namespace StripSequencer.Toml

/-- A value that can be written on one line. -/
inductive Plain where
  | string (value : Text)
  | integer (value : Int64)
deriving DecidableEq, Repr

/-- The text of a plain value. -/
def Plain.text : Plain → Text
  | .string t => quote t
  | .integer n => toString n.toInt

/-- The line of an entry, whose key needs no quotes. -/
def entryLine (key : String) (value : Plain) : Text :=
  .ofString ("  " ++ key ++ " = ") ++ value.text ++ [.char '\n']

/-- The text of a table. -/
def tableText (name : String) (entries : List (String × Plain)) : Text :=
  .ofString ("[" ++ name ++ "]\n") ++ entries.flatMap fun (key, value) => entryLine key value

/-- The text of a file with these tables. -/
def fileText (tables : List (String × List (String × Plain))) : Text :=
  [.char '\n'].intercalate (tables.map fun (name, entries) => tableText name entries)

end StripSequencer.Toml
