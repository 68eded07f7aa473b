import StripSequencer.Assembly
import StripSequencer.Text.Hexadecimal

/-!
# `StripSequencer.LanguageServer.Cursor` — what stands at a position of a document

A position is a line and a column in bytes. The word around it is made of bytes that are letters, digits or
underscores when they are read as Latin-1 characters.

## Contents
- `lineAt`, `fragmentAt`, `wordAt`: the line of a position, and the word before and around it.
- `hover?`: the instruction whose mnemonic the position is on, with the offset it will be stored at.
- `completions`: the mnemonics that the word before the position may become.
-/

namespace StripSequencer.LanguageServer

/-- A place in a document. -/
structure Position where
  line : Nat
  column : Nat
deriving DecidableEq, Repr

/-- A line of a document; beyond its end all lines are empty. -/
def lineAt (document : Text) (n : Nat) : Text := document.lines[n]?.getD []

/-- A byte that belongs to a word: a letter or digit of Latin-1, or an underscore. -/
def isWordByte (b : UInt8) : Bool :=
  (0x30 ≤ b && b ≤ 0x39) || (0x41 ≤ b && b ≤ 0x5A) || b = 0x5F || (0x61 ≤ b && b ≤ 0x7A)
    || b = 0xAA || b = 0xB5 || b = 0xBA || (0xC0 ≤ b && b ≠ 0xD7 && b ≠ 0xF7)

/-- The bytes of a line before a column. -/
def before (line : Text) (column : Nat) : List UInt8 := line.bytes.take column

/-- The part of a word that ends at a column. -/
def fragmentAt (line : Text) (column : Nat) : List UInt8 :=
  ((before line column).reverse.takeWhile isWordByte).reverse

/-- The word around a column. -/
def wordAt (line : Text) (column : Nat) : List UInt8 :=
  fragmentAt line column ++ (line.bytes.drop column).takeWhile isWordByte

/-! ## Hover -/

/-- An instruction under a position. -/
structure Hover where
  op : Opcode
  /-- The offset in the program. -/
  offset : Nat
deriving DecidableEq, Repr

/-- The description of an instruction. -/
def Hover.text (h : Hover) : String :=
  let operands :=
    if h.op.operandNames.isEmpty then ""
    else "Operands: `" ++ String.intercalate " " h.op.operandNames ++ "`\n\n"
  "**" ++ h.op.mnemonic ++ "** `" ++ h.op.name ++ "` (0x" ++ Hexadecimal.byte h.op.code ++ ")\n\n" ++ operands
    ++ toString h.op.size ++ " bytes at offset 0x" ++ Hexadecimal.offset h.offset

/-- The bytes of the instruction of a line; a line that does not assemble has none. -/
def lineSize (line : Text) : Nat :=
  match Assembly.assembleLine line with
  | .ok (some i) => i.size
  | _ => 0

/-- The offset in the program at which a line begins. -/
def offsetOfLine (document : Text) (n : Nat) : Nat :=
  ((document.lines.take n).map lineSize).foldr (· + ·) 0

/-- The instruction of the line, if the word at the position is its mnemonic. -/
def hover? (document : Text) (p : Position) : Option Hover :=
  let line := lineAt document p.line
  match (Assembly.uncommented line).fields with
  | [] => none
  | first :: _ =>
    match Assembly.opcode? (Text.ofBytes (wordAt line p.column)) with
    | none => none
    | some op => if Assembly.opcode? first = some op then some ⟨op, offsetOfLine document p.line⟩ else none

/-! ## Completion -/

/-- The instructions whose mnemonic begins with a fragment, in any case. -/
def completionsOf (fragment : List UInt8) : List Opcode :=
  Opcode.every.filter fun op =>
    (Assembly.loweredText (Text.ofBytes fragment)).isPrefixOf (Text.ofString op.mnemonic)

/-- The instructions that can be meant at a position. Only the first word of a line is an instruction. -/
def completions (document : Text) (p : Position) : List Opcode :=
  let line := lineAt document p.line
  let fragment := fragmentAt line p.column
  if (Text.ofBytes (before line p.column)).trim.bytes = fragment then completionsOf fragment else []

/-- The detail that is shown with a completion. -/
def completionDetail (op : Opcode) : String := op.name ++ ", " ++ toString op.size ++ " bytes"

end StripSequencer.LanguageServer
