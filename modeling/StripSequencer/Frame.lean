import StripSequencer.Instruction
import StripSequencer.Refusal

/-!
# `StripSequencer.Frame` — commands on the wire and the statuses that answer them

A frame is a command byte followed by up to four payload bytes. The answer to a command is its status:
`ok`, or the words of the cause for which it was refused.
-/

namespace StripSequencer

namespace Frame

/-- The length of a full frame. -/
def maxLength : Nat := 5

/-- A full frame; missing payload bytes are zero and extra ones are dropped. -/
def encode (command : UInt8) (payload : List UInt8) : List UInt8 :=
  command :: (Payload.ofList payload).toList

/-- A frame of a length that no command has. -/
structure Malformed where
  length : Nat
deriving DecidableEq, Repr

/-- The report of a malformed frame. -/
def Malformed.failure (e : Malformed) : Failure :=
  ⟨toString e.length ++ " bytes: " ++ Cause.badFrame.text, [.badFrame]⟩

/-- The command and the payload of a frame. -/
def parse (frame : List UInt8) : Except Malformed (UInt8 × Payload) :=
  match frame with
  | [] => .error ⟨0⟩
  | command :: payload =>
    if maxLength < frame.length then .error ⟨frame.length⟩
    else .ok (command, Payload.ofList payload)

end Frame

namespace Status

/-- The status of an accepted command. -/
def ok : String := "ok"

/-- The causes that statuses name, in the order in which they are looked for. -/
def causes : List Cause :=
  [.capacityExceeded, .invalidOpcode, .invalidCommand, .emptyProgram, .pixelOutOfRange, .corruptProgram,
    .busy]

/-- The status of a failure: the words of the first cause that it contains, or its text. -/
def ofFailure (f : Failure) : String :=
  match causes.find? (· ∈ f.causes) with
  | some cause => cause.text
  | none => f.message

end Status

end StripSequencer
