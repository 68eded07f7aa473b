import StripSequencer.CommandLine.Suggestion
import StripSequencer.Control.Options

/-!
# `StripSequencer.Control.Verb` — the commands of the control tool

## Contents
- `Verb` with its names, its usage and the number of its arguments.
- `resolve`: the verb among the arguments, and the arguments without it.
- `UsageError`: what is wrong with arguments, with the words for it.
-/

namespace StripSequencer.Control

/-- The name of the tool. -/
def toolName : String := "ledseqctl"

/-- The version of the tool. -/
def toolVersion : String := "dev"

/-- The commands. -/
inductive Verb where
  | clear
  | run
  | pause
  | edit
  | done
  | add
  | send
  | inspect
  | snapshot
  | load
  | disassemble
  | help
  | completion
deriving DecidableEq, Repr

namespace Verb

/-- All commands. -/
def every : List Verb :=
  [.clear, .run, .pause, .edit, .done, .add, .send, .inspect, .snapshot, .load, .disassemble, .help,
    .completion]

/-- The name of a command. -/
def name : Verb → String
  | .clear => "clear"
  | .run => "run"
  | .pause => "pause"
  | .edit => "edit"
  | .done => "done"
  | .add => "add"
  | .send => "send"
  | .inspect => "inspect"
  | .snapshot => "snapshot"
  | .load => "load"
  | .disassemble => "disasm"
  | .help => "help"
  | .completion => "completion"

/-- The arguments of a command, as its usage shows them. -/
def argumentText : Verb → String
  | .add => " <clear | pixel I R G B | delay N | all R G B>"
  | .send => " <file.seq>"
  | .snapshot | .load | .disassemble => " <file.lseq>"
  | .help => " [command]"
  | _ => ""

/-- What a command does, in one line. -/
def summary : Verb → String
  | .clear => "Erase the program and pause"
  | .run => "Start or resume playback"
  | .pause => "Pause playback"
  | .edit => "Enter edit mode, appending after the program"
  | .done => "Leave edit mode"
  | .add => "Append one instruction (edit mode only)"
  | .send => "Append every instruction in an assembly file in one edit session"
  | .inspect => "Print the program listing and controller state"
  | .snapshot => "Save the current program as an image file"
  | .load => "Replace the program with an image file (paused only)"
  | .disassemble => "Print the program in an image file"
  | .help => "Help about any command"
  | .completion => "Generate the autocompletion script for the specified shell"

/-- The command with a name. -/
def ofName? (name : String) : Option Verb := every.find? (·.name = name)

end Verb

/-- What is wrong with the arguments. -/
inductive UsageError where
  | flag (error : FlagError)
  | unknownCommand (typed : String)
  | unexpected (argument : String) (verb : Verb)
  | notOne (count : Nat)
  | tooFew
deriving DecidableEq, Repr

/-- The lines that suggest other commands. The help command is never suggested. -/
def suggestionText (typed : String) : String :=
  match CommandLine.suggestions ((Verb.every.filter (· ≠ .help)).map Verb.name) typed with
  | [] => ""
  | names => "\n\nDid you mean this?\n" ++ String.join (names.map fun n => "\t" ++ n ++ "\n")

/-- The words for what is wrong with the arguments. -/
def UsageError.message : UsageError → String
  | .flag e => e.message
  | .unknownCommand typed =>
    "unknown command " ++ (Text.ofString typed).quoted ++ " for \"" ++ toolName ++ "\""
      ++ suggestionText typed
  | .unexpected argument verb =>
    "unknown command " ++ (Text.ofString argument).quoted ++ " for \"" ++ toolName ++ " " ++ verb.name ++ "\""
  | .notOne count => "accepts 1 arg(s), received " ++ toString count
  | .tooFew => "requires at least 1 arg(s), only received 0"

/-- The command among the arguments, if there is one, and the arguments without it. -/
def resolve (arguments : List String) : Except UsageError (Option Verb × List String) :=
  match words arguments with
  | [] => .ok (none, arguments)
  | word :: _ =>
    match Verb.ofName? word with
    | none => .error (.unknownCommand word)
    | some verb => .ok (some verb, without word arguments)

/-- Accepts as many positional arguments as a command takes. -/
def checkArguments (verb : Verb) (given : List String) : Except UsageError Unit :=
  match verb with
  | .clear | .run | .pause | .edit | .done | .inspect | .completion =>
    match given with
    | [] => .ok ()
    | argument :: _ => .error (.unexpected argument verb)
  | .send | .snapshot | .load | .disassemble =>
    if given.length = 1 then .ok () else .error (.notOne given.length)
  | .add => if given.isEmpty then .error .tooFew else .ok ()
  | .help => .ok ()

end StripSequencer.Control
