import StripSequencer.Text.Glyph
import StripSequencer.Toml.Number
import StripSequencer.Toml.Quoted

/-!
# `StripSequencer.Toml.Reader` — the statements of a TOML file

The reader follows TOML 1.1: inline tables may run over several lines and may end with a comma.
-/

namespace StripSequencer.Toml

/-! ## Blanks and comments -/

/-- A blank inside a line. -/
def isBlank (c : Char) : Bool := c = ' ' || c = '\t'

/-- The text without the blanks at its front. -/
def skipBlanks (cs : List Char) : List Char := cs.dropWhile isBlank

/-- The text without the comment at its front. -/
def skipComment (cs : List Char) : List Char := cs.dropWhile (! isNewline ·)

/-- The text without the blanks, line breaks and comments at its front; the first argument bounds their
number. -/
def skipLines : Nat → List Char → List Char
  | 0, cs => cs
  | fuel + 1, cs =>
    match cs.dropWhile fun c => isBlank c || isNewline c with
    | '#' :: rest => skipLines fuel (skipComment rest)
    | cs => cs

/-- The text without the blanks, line breaks and comments at its front. -/
def skipAll (cs : List Char) : List Char := skipLines cs.length cs

/-! ## Keys -/

/-- A character of a key without quotes. -/
def isBareChar (c : Char) : Bool := c.isAlphanum || c = '_' || c = '-'

/-- Reads one part of a key. -/
def readPart (cs : List Char) : Option (String × List Char) :=
  match cs with
  | '"' :: rest => readBasic rest
  | '\'' :: rest => readLiteral rest
  | _ =>
    let name := cs.takeWhile isBareChar
    if name.isEmpty then none else some (String.ofList name, cs.dropWhile isBareChar)

/-- Reads the parts of a key up to the character that ends it; `seen` holds the parts so far, last
first. -/
def readParts (close : Char) : Nat → List String → List Char → Option (Key × List Char)
  | 0, _, _ => none
  | fuel + 1, seen, cs => do
    let (part, rest) ← readPart (skipBlanks cs)
    match skipBlanks rest with
    | '.' :: rest => readParts close fuel (part :: seen) rest
    | c :: rest => if c = close then return ((part :: seen).reverse, rest) else none
    | [] => none

/-- Reads a key up to the character that ends it. -/
def readKey (close : Char) (cs : List Char) : Option (Key × List Char) := readParts close cs.length [] cs

/-! ## Values -/

mutual

/-- Reads a value after blanks. The first argument bounds the depth of the calls. -/
def readValue : Nat → List Char → Option (Value × List Char)
  | 0, _ => none
  | fuel + 1, cs =>
    match skipBlanks cs with
    | '"' :: '"' :: '"' :: rest => (readMultiline rest).map fun (s, rest) => (.string s, rest)
    | '"' :: rest => (readBasic rest).map fun (s, rest) => (.string s, rest)
    | '\'' :: '\'' :: '\'' :: rest =>
      (readMultilineLiteral rest).map fun (s, rest) => (.string s, rest)
    | '\'' :: rest => (readLiteral rest).map fun (s, rest) => (.string s, rest)
    | '[' :: rest => readItems fuel [] rest
    | '\x7b' :: rest => readEntries fuel [] rest
    | 't' :: 'r' :: 'u' :: 'e' :: rest => some (.boolean true, rest)
    | 'f' :: 'a' :: 'l' :: 's' :: 'e' :: rest => some (.boolean false, rest)
    | 'i' :: 'n' :: 'f' :: rest => some (.float "inf", rest)
    | 'n' :: 'a' :: 'n' :: rest => some (.float "nan", rest)
    | c :: rest => if c.isDigit || c = '-' || c = '+' then readNumber (c :: rest) else none
    | [] => none

/-- Reads the items of an array up to its closing bracket; `seen` holds the items so far, last first. -/
def readItems : Nat → List Value → List Char → Option (Value × List Char)
  | 0, _, _ => none
  | fuel + 1, seen, cs =>
    match skipAll cs with
    | ']' :: rest => some (.array seen.reverse, rest)
    | cs =>
      match readValue fuel cs with
      | none => none
      | some (item, rest) =>
        match skipAll rest with
        | ',' :: rest => readItems fuel (item :: seen) rest
        | ']' :: rest => some (.array (item :: seen).reverse, rest)
        | _ => none

/-- Reads the entries of an inline table up to its closing brace; `seen` holds the entries so far, last
first. -/
def readEntries : Nat → List (Key × Value) → List Char → Option (Value × List Char)
  | 0, _, _ => none
  | fuel + 1, seen, cs =>
    match skipAll cs with
    | '\x7d' :: rest => some (.inlineTable seen.reverse, rest)
    | cs =>
      match readKey '=' cs with
      | none => none
      | some (key, rest) =>
        match readValue fuel rest with
        | none => none
        | some (value, rest) =>
          match skipAll rest with
          | ',' :: rest => readEntries fuel ((key, value) :: seen) rest
          | '\x7d' :: rest => some (.inlineTable ((key, value) :: seen).reverse, rest)
          | _ => none

end

/-! ## Statements -/

/-- Reads the end of a statement: blanks, a comment, and the end of the line or of the file. -/
def readEnd (cs : List Char) : Option (List Char) :=
  match skipBlanks cs with
  | [] => some []
  | '#' :: rest => some (skipComment rest)
  | c :: rest => if isNewline c then some (c :: rest) else none

/-- Reads a statement. -/
def readStatement (cs : List Char) : Option (Statement × List Char) :=
  match cs with
  | '[' :: '[' :: rest => do
    let (key, rest) ← readKey ']' rest
    return (.arrayTable key, ← readEnd (← expect ']' rest))
  | '[' :: rest => do
    let (key, rest) ← readKey ']' rest
    return (.table key, ← readEnd rest)
  | _ => do
    let (key, rest) ← readKey '=' cs
    let (value, rest) ← readValue (2 * rest.length + 2) rest
    return (.entry key value, ← readEnd rest)

/-- Reads statements to the end of the text; `seen` holds the statements so far, last first. -/
def readStatements : Nat → List Statement → List Char → Option (List Statement)
  | 0, _, _ => none
  | fuel + 1, seen, cs =>
    match skipAll cs with
    | [] => some seen.reverse
    | cs => do
      let (statement, rest) ← readStatement cs
      readStatements fuel (statement :: seen) rest

/-- A control character that no TOML file may hold. -/
def isForbidden (c : Char) : Bool :=
  (c.toNat < 0x20 && c ≠ '\t' && c ≠ '\n' && c ≠ '\r') || c.toNat = 0x7F

/-- No character is forbidden, and every carriage return is followed by a line feed. -/
def charactersOk : List Char → Bool
  | [] => true
  | '\r' :: '\n' :: rest => charactersOk rest
  | c :: rest => c ≠ '\r' && !isForbidden c && charactersOk rest

/-- The bytes of a file without the mark of its byte order. -/
def dropMark : List UInt8 → List UInt8
  | 0xFF :: 0xFE :: rest => rest
  | 0xFE :: 0xFF :: rest => rest
  | 0xEF :: 0xBB :: 0xBF :: rest => rest
  | data => data

/-- The statements of a text. -/
def statements? (text : String) : Option (List Statement) :=
  if charactersOk text.toList then readStatements (text.length + 1) [] text.toList else none

/-- The statements of a file. -/
def statementsOfBytes? (data : List UInt8) : Option (List Statement) :=
  (Text.ofBytes (dropMark data)).toString?.bind statements?

end StripSequencer.Toml
