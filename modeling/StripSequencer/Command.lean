import StripSequencer.Opcode

/-!
# `StripSequencer.Command` — the modes of a sequencer and its structural commands

The mode decides what a command byte means: an opcode to append while a program is being entered, and a
structural command otherwise.
-/

namespace StripSequencer

/-- The modes of a sequencer. -/
inductive Mode where
  | paused
  | running
  | commandEntry
deriving DecidableEq, Repr, Inhabited

namespace Mode

/-- The name of a mode. -/
def name : Mode → String
  | .paused => "paused"
  | .running => "running"
  | .commandEntry => "command-entry"

/-- The mode with a number. -/
def ofCode? (n : UInt8) : Option Mode :=
  if n = 0 then some .paused
  else if n = 1 then some .running
  else if n = 2 then some .commandEntry
  else none

/-- The name of the mode with a number, also if there is none. -/
def nameOfCode (n : UInt8) : String :=
  match ofCode? n with
  | some mode => mode.name
  | none => "Mode(" ++ toString n.toNat ++ ")"

end Mode

/-- The commands that are accepted outside command entry. -/
inductive Command where
  | clear
  | run
  | pause
  | enterEdit
deriving DecidableEq, Repr

namespace Command

/-- The byte of a command. -/
def code : Command → UInt8
  | .clear => 1
  | .run => 2
  | .pause => 3
  | .enterEdit => 4

/-- The command of a byte, if it has one. -/
def ofByte? (b : UInt8) : Option Command :=
  if b = 1 then some .clear
  else if b = 2 then some .run
  else if b = 3 then some .pause
  else if b = 4 then some .enterEdit
  else none

/-- The name of a command. -/
def name : Command → String
  | .clear => "CLEAR"
  | .run => "RUN"
  | .pause => "PAUSE"
  | .enterEdit => "ENTER_EDIT"

/-- The name of a byte that stands where a command is expected. -/
def nameOfByte (b : UInt8) : String :=
  match ofByte? b with
  | some command => command.name
  | none => Opcode.unknownName b

end Command

end StripSequencer
