import StripSequencer.Program
import StripSequencer.Text.Blank
import StripSequencer.Text.Numeral
import StripSequencer.Text.Quoted

/-!
# `StripSequencer.Assembly` — program text

A line of program text holds at most one instruction: a mnemonic in any case, then its operands as
numerals up to 255, separated by blanks. A `#` starts a comment that runs to the end of the line.

## Contents
- `assembleLine`: the instruction of a line, if it has one.
- `assemble`: the instructions of a text; the error of the first line that has one.
- `LineError`, `AssembleError`: what can be wrong, with the words for it.
-/

namespace StripSequencer

/-- What can be wrong with a line of program text. -/
inductive LineError where
  | unknownInstruction (token : Text)
  | wrongOperandCount (token : Text) (op : Opcode) (given : Nat)
  | badOperand (token : Text) (flaw : Numeral.Flaw)
deriving DecidableEq, Repr

/-- The words for what is wrong with a line. -/
def LineError.message : LineError → String
  | .unknownInstruction token => "unknown instruction " ++ token.quoted
  | .wrongOperandCount token op given =>
    token.display ++ " takes " ++ toString op.operandCount ++ " operands, got " ++ toString given
  | .badOperand token flaw =>
    "operand " ++ token.quoted ++ ": strconv.ParseUint: parsing " ++ token.quoted ++ ": "
      ++ flaw.message

/-- What is wrong with a text, and on which line, counted from 1. -/
structure AssembleError where
  line : Nat
  error : LineError
deriving DecidableEq, Repr

/-- The words for what is wrong with a text. -/
def AssembleError.message (e : AssembleError) : String :=
  "line " ++ toString e.line ++ ": " ++ e.error.message

namespace Assembly

/-- The letter as it counts in a mnemonic. Besides the ASCII capitals, the dotted capital I and the
Kelvin sign have ASCII letters as their small letters. -/
def lowered (c : Char) : Char :=
  if c = Char.ofNat 0x130 then 'i' else if c = Char.ofNat 0x212A then 'k' else c.toLower

/-- A token with its letters lowered. -/
def loweredText (token : Text) : Text :=
  token.map fun
    | .char c => .char (lowered c)
    | .stray b => .stray b

/-- The opcode whose mnemonic is `token`, in any case. -/
def opcode? (token : Text) : Option Opcode :=
  Opcode.every.find? fun op => loweredText token = Text.ofString op.mnemonic

/-- The part of a line before its comment. -/
def uncommented (line : Text) : Text := line.takeWhile (· ≠ .char '#')

/-- The value of an operand. -/
def operand (token : Text) : Except LineError UInt8 :=
  match Numeral.read 255 token with
  | .ok value => .ok (UInt8.ofNat value)
  | .error flaw => .error (.badOperand token flaw)

/-- The instruction of a line; none if the line is blank or holds a comment only. -/
def assembleLine (line : Text) : Except LineError (Option Instruction) :=
  match (uncommented line).fields with
  | [] => .ok none
  | token :: args =>
    match opcode? token with
    | none => .error (.unknownInstruction token)
    | some op =>
      if args.length ≠ op.operandCount then .error (.wrongOperandCount token op args.length)
      else do
        let operands ← args.mapM operand
        return some (Instruction.ofPayload op (Payload.ofList operands))

/-- The instructions of lines, the first of which has the given number. -/
def assembleLines (number : Nat) : List Text → Except AssembleError (List Instruction)
  | [] => .ok []
  | line :: rest =>
    match assembleLine line with
    | .error error => .error ⟨number, error⟩
    | .ok none => assembleLines (number + 1) rest
    | .ok (some i) => (assembleLines (number + 1) rest).map (i :: ·)

/-- The instructions of a text. -/
def assembleProgram (t : Text) : Except AssembleError (List Instruction) := assembleLines 1 t.lines

/-- The code of a text. -/
def assemble (t : Text) : Except AssembleError (List UInt8) := (assembleProgram t).map Program.encode

end Assembly

end StripSequencer
