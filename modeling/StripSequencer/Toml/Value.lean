/-!
# `StripSequencer.Toml.Value` — values and statements of a TOML file

A file is a list of statements. A statement opens a table, opens one more table of an array of tables, or
gives a value to a key.
-/

namespace StripSequencer.Toml

/-- A key is the list of its parts, of which there is at least one. -/
abbrev Key := List String

/-- A value as written. Of floats and of dates and times only the text is kept. -/
inductive Value where
  | string (value : String)
  | integer (value : Int64)
  | float (text : String)
  | boolean (value : Bool)
  | datetime (text : String)
  | array (items : List Value)
  | inlineTable (entries : List (Key × Value))
deriving Repr

/-- A statement. -/
inductive Statement where
  | table (key : Key)
  | arrayTable (key : Key)
  | entry (key : Key) (value : Value)
deriving Repr

end StripSequencer.Toml
