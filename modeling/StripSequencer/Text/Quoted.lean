import StripSequencer.Text.Printable
import StripSequencer.Text.Hexadecimal

/-!
# `StripSequencer.Text.Quoted` — text between double quotes

Messages quote what they complain about. `Text.quoted` keeps printable characters and escapes all
others; `Text.byteQuoted` keeps printable ASCII only and escapes every other byte on its own, as
messages about durations do.
-/

namespace StripSequencer

/-- The one-letter escapes of control characters. -/
def controlEscape? (c : Char) : Option String :=
  match c.toNat with
  | 0x07 => some "\\a"
  | 0x08 => some "\\b"
  | 0x0C => some "\\f"
  | 0x0A => some "\\n"
  | 0x0D => some "\\r"
  | 0x09 => some "\\t"
  | 0x0B => some "\\v"
  | _ => none

/-- A glyph inside quoted text. -/
def Glyph.escaped : Glyph → String
  | .stray b => "\\x" ++ Hexadecimal.lower 2 b.toNat
  | .char c =>
    if c = '"' then "\\\""
    else if c = '\\' then "\\\\"
    else if isPrintable c then String.singleton c
    else
      match controlEscape? c with
      | some escape => escape
      | none =>
        if c.toNat < 0x80 then "\\x" ++ Hexadecimal.lower 2 c.toNat
        else if c.toNat < 0x10000 then "\\u" ++ Hexadecimal.lower 4 c.toNat
        else "\\U" ++ Hexadecimal.lower 8 c.toNat

/-- A byte inside text quoted byte by byte. -/
def escapedByte (b : UInt8) : String :=
  if b = 0x22 then "\\\""
  else if b = 0x5C then "\\\\"
  else if b < 0x20 || 0x80 ≤ b then "\\x" ++ Hexadecimal.lower 2 b.toNat
  else String.singleton (Char.ofNat b.toNat)

/-- The text between double quotes, with everything that is not printable escaped. -/
def Text.quoted (t : Text) : String := "\"" ++ String.join (t.map Glyph.escaped) ++ "\""

/-- The text between double quotes, with everything but printable ASCII escaped byte by byte. -/
def Text.byteQuoted (t : Text) : String := "\"" ++ String.join (t.bytes.map escapedByte) ++ "\""

end StripSequencer
