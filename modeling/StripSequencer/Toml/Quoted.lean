import StripSequencer.Json
import StripSequencer.Text.Glyph

/-!
# `StripSequencer.Toml.Quoted` — strings of a TOML file

Basic strings stand between double quotes and have escapes; literal strings stand between single quotes
and have none. Both also come between triple quotes, where they may run over several lines.

## Contents
- `quote`: a text as a basic string.
- `readBasic`, `readLiteral`, `readMultiline`: strings after their opening quotes.
-/

namespace StripSequencer.Toml

/-! ## Writing -/

/-- A character inside a written string. -/
def escapedChar (c : Char) : String :=
  match c with
  | '"' => "\\\""
  | '\\' => "\\\\"
  | '\t' => "\\t"
  | '\n' => "\\n"
  | '\r' => "\\r"
  | _ =>
    if c.toNat = 0x08 then "\\b"
    else if c.toNat = 0x0C then "\\f"
    else if c.toNat < 0x20 ∨ c.toNat = 0x7F then "\\u" ++ Hexadecimal.lower 4 c.toNat
    else String.singleton c

/-- A glyph inside a written string. A stray byte is written as it is, although no file may hold one. -/
def escapedGlyph : Glyph → Text
  | .char c => .ofString (escapedChar c)
  | .stray b => [.stray b]

/-- A text between double quotes, on one line. -/
def quote (t : Text) : Text := .char '"' :: (t.flatMap escapedGlyph ++ [.char '"'])

/-! ## Escapes -/

/-- The character that a one-letter escape stands for. -/
def simpleEscape? (c : Char) : Option Char :=
  match c with
  | '"' => some '"'
  | '\\' => some '\\'
  | 'b' => some (Char.ofNat 0x08)
  | 't' => some '\t'
  | 'n' => some '\n'
  | 'f' => some (Char.ofNat 0x0C)
  | 'r' => some '\r'
  | 'e' => some (Char.ofNat 0x1B)
  | _ => none

/-- The character that hexadecimal digits name; half a surrogate pair is none. -/
def hexChar? (digits : List Char) : Option Char := do
  let value ← digits.foldlM (fun n c => (Json.hexDigit? c).map (n * 16 + ·)) 0
  if value.isValidChar then some (Char.ofNat value) else none

/-- The characters of a string whose escapes are still written. -/
def unescape : List Char → Option (List Char)
  | [] => some []
  | '\\' :: 'x' :: a :: b :: rest => do
    return (← hexChar? [a, b]) :: (← unescape rest)
  | '\\' :: 'u' :: a :: b :: c :: d :: rest => do
    return (← hexChar? [a, b, c, d]) :: (← unescape rest)
  | '\\' :: 'U' :: a :: b :: c :: d :: e :: f :: g :: h :: rest => do
    return (← hexChar? [a, b, c, d, e, f, g, h]) :: (← unescape rest)
  | '\\' :: c :: rest => do
    return (← simpleEscape? c) :: (← unescape rest)
  | c :: rest => if c = '\\' then none else (unescape rest).map (c :: ·)

/-! ## Strings on one line -/

/-- A character that ends a line. -/
def isNewline (c : Char) : Bool := c = '\n' || c = '\r'

/-- The characters up to the closing double quote, escapes still written, and what follows it. -/
def spanBasic (seen : List Char) : List Char → Option (List Char × List Char)
  | [] => none
  | '"' :: rest => some (seen.reverse, rest)
  | '\\' :: c :: rest => if isNewline c then none else spanBasic (c :: '\\' :: seen) rest
  | c :: rest => if isNewline c then none else spanBasic (c :: seen) rest

/-- Reads a basic string. -/
def readBasic (cs : List Char) : Option (String × List Char) := do
  let (raw, rest) ← spanBasic [] cs
  return (String.ofList (← unescape raw), rest)

/-- Reads a literal string. -/
def readLiteral (cs : List Char) : Option (String × List Char) :=
  let body := cs.takeWhile fun c => c ≠ '\'' && !isNewline c
  match cs.dropWhile fun c => c ≠ '\'' && !isNewline c with
  | '\'' :: rest => some (String.ofList body, rest)
  | _ => none

/-! ## Strings over several lines -/

/-- The characters up to the closing triple quote, and what follows it. One or two quotes may stand right
before the closing ones, but not three. With `escapes`, the character after a backslash is taken as it
is. -/
def spanMultiline (quote : Char) (escapes : Bool) (seen : List Char) :
    List Char → Option (List Char × List Char)
  | [] => none
  | c :: rest =>
    if escapes && c = '\\' then
      match rest with
      | [] => none
      | d :: rest => spanMultiline quote escapes (d :: c :: seen) rest
    else if c = quote && rest.take 2 = [quote, quote] then
      let after := rest.drop 2
      if after.head? ≠ some quote then some (seen.reverse, after)
      else if after.take 3 = [quote, quote, quote] then none
      else spanMultiline quote escapes (c :: seen) rest
    else spanMultiline quote escapes (c :: seen) rest

/-- The text without a line break at its very beginning. -/
def dropFirstNewline : List Char → List Char
  | '\n' :: rest => rest
  | '\r' :: '\n' :: rest => rest
  | cs => cs

/-- Nothing but blanks stands before the end of the line. -/
def endsLine (cs : List Char) : Bool :=
  (cs.dropWhile fun c => c = ' ' || c = '\t').head?.any isNewline

/-- The text with lines joined: a backslash at the end of a line takes away itself, the line break, and
all blanks and line breaks after it. `trimming` says that such a backslash was just passed. -/
def joinLines (trimming : Bool) : List Char → List Char
  | [] => []
  | '\\' :: '\\' :: rest => '\\' :: '\\' :: joinLines false rest
  | c :: rest =>
    if trimming && (c = ' ' || c = '\t' || isNewline c) then joinLines true rest
    else if c = '\\' && endsLine rest then joinLines true rest
    else c :: joinLines false rest

/-- Reads a basic string between triple quotes. -/
def readMultiline (cs : List Char) : Option (String × List Char) := do
  let (raw, rest) ← spanMultiline '"' true [] cs
  return (String.ofList (← unescape (joinLines false (dropFirstNewline raw))), rest)

/-- Reads a literal string between triple quotes. -/
def readMultilineLiteral (cs : List Char) : Option (String × List Char) := do
  let (raw, rest) ← spanMultiline '\'' false [] cs
  return (String.ofList (dropFirstNewline raw), rest)

end StripSequencer.Toml
