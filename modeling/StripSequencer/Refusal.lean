import StripSequencer.Command
import StripSequencer.Program

/-!
# `StripSequencer.Refusal` — why an operation is refused

Every refusal has one of a few causes, which clients are told, and a message that says more. A refused
operation changes nothing.
-/

namespace StripSequencer

/-- The causes that errors are sorted by. -/
inductive Cause where
  | capacityExceeded
  | invalidOpcode
  | invalidCommand
  | emptyProgram
  | pixelOutOfRange
  | corruptProgram
  | busy
  | badMagic
  | badVersion
  | badFrame
  | stopped
  | journalClosed
deriving DecidableEq, Repr

/-- The words for a cause. -/
def Cause.text : Cause → String
  | .capacityExceeded => "capacity exceeded"
  | .invalidOpcode => "invalid opcode"
  | .invalidCommand => "invalid command"
  | .emptyProgram => "empty program"
  | .pixelOutOfRange => "pixel index out of range"
  | .corruptProgram => "corrupt program"
  | .busy => "program is running"
  | .badMagic => "not a program image"
  | .badVersion => "unsupported image version"
  | .badFrame => "malformed command frame"
  | .stopped => "worker stopped"
  | .journalClosed => "journal closed"

/-- The cause of every flaw is a corrupt program; the message says where it is. -/
def Program.Flaw.message : Program.Flaw → String
  | .unknownByte offset b =>
    "offset " ++ toString offset ++ ": byte 0x" ++ Hexadecimal.byte b ++ ": "
      ++ Cause.corruptProgram.text
  | .truncated offset op =>
    "offset " ++ toString offset ++ ": truncated " ++ op.name ++ ": " ++ Cause.corruptProgram.text

/-- Why a sequencer or its store refuses an operation. -/
inductive Refusal where
  /-- A byte outside command entry that is no command. -/
  | unknownCommand (byte : UInt8)
  /-- A byte in command entry that is no opcode. -/
  | unknownOpcode (byte : UInt8)
  /-- An append of something that is no instruction. -/
  | notAnInstruction (byte : UInt8)
  /-- An append of an instruction that does not fit. -/
  | noRoom (op : Opcode) (free : Nat)
  /-- An append of a pixel instruction whose index is beyond the strip. -/
  | pixelBeyond (index leds : UInt8)
  /-- A start of playback with nothing to play. -/
  | nothingToRun
  /-- A program that is longer than the buffer. -/
  | tooLong (length capacity : Nat)
  /-- A program that is no list of complete instructions. -/
  | corrupt (flaw : Program.Flaw)
  /-- A load outside the paused mode. -/
  | notPaused (mode : Mode)
deriving DecidableEq, Repr

namespace Refusal

/-- The cause of a refusal. -/
def cause : Refusal → Cause
  | .unknownCommand _ => .invalidCommand
  | .unknownOpcode _ => .invalidOpcode
  | .notAnInstruction _ => .invalidOpcode
  | .noRoom .. => .capacityExceeded
  | .pixelBeyond .. => .pixelOutOfRange
  | .nothingToRun => .emptyProgram
  | .tooLong .. => .capacityExceeded
  | .corrupt _ => .corruptProgram
  | .notPaused _ => .busy

/-- The full message of a refusal; it ends with the words of the cause. -/
def message : Refusal → String
  | .unknownCommand b => "command 0x" ++ Hexadecimal.byte b ++ ": " ++ Cause.invalidCommand.text
  | .unknownOpcode b => "opcode 0x" ++ Hexadecimal.byte b ++ ": " ++ Cause.invalidOpcode.text
  | .notAnInstruction b => "append 0x" ++ Hexadecimal.byte b ++ ": " ++ Cause.invalidOpcode.text
  | .noRoom op free =>
    "append " ++ op.name ++ " (" ++ toString op.size ++ " bytes, " ++ toString free ++ " free): "
      ++ Cause.capacityExceeded.text
  | .pixelBeyond index leds =>
    "append pixel " ++ toString index.toNat ++ " of " ++ toString leds.toNat ++ ": "
      ++ Cause.pixelOutOfRange.text
  | .nothingToRun => Cause.emptyProgram.text
  | .tooLong length capacity =>
    "load " ++ toString length ++ " bytes into " ++ toString capacity ++ ": "
      ++ Cause.capacityExceeded.text
  | .corrupt flaw => flaw.message
  | .notPaused mode => "load in " ++ mode.name ++ " mode: " ++ Cause.busy.text

end Refusal

/-- An error as it is reported: its text, and the causes that it contains. -/
structure Failure where
  message : String
  causes : List Cause := []
deriving DecidableEq, Repr

/-- The report of a refusal. -/
def Refusal.failure (r : Refusal) : Failure := ⟨r.message, [r.cause]⟩

/-- The report with words put before its text. -/
def Failure.within (leading : String) (f : Failure) : Failure :=
  { f with message := leading ++ ": " ++ f.message }

end StripSequencer
