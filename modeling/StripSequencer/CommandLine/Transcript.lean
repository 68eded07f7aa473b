/-!
# `StripSequencer.CommandLine.Transcript` — what a command leaves behind
-/

namespace StripSequencer.CommandLine

/-- The exit status of a command, and what it wrote. -/
structure Transcript where
  exit : Nat := 0
  out : String := ""
  err : String := ""
deriving DecidableEq, Repr

/-- A command that wrote to its output and succeeded. -/
def Transcript.printed (out : String) : Transcript := { out }

/-- A command that failed with a message, after it wrote to its output. -/
def Transcript.failed (message : String) (out : String := "") : Transcript :=
  { exit := 1, out, err := "Error: " ++ message ++ "\n" }

/-- The truth value that a text spells. -/
def truthValue? (text : String) : Option Bool :=
  if ["1", "t", "T", "TRUE", "true", "True"].contains text then some true
  else if ["0", "f", "F", "FALSE", "false", "False"].contains text then some false
  else none

end StripSequencer.CommandLine
