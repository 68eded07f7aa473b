import StripSequencer.Control.Verb

/-!
# `StripSequencer.Control.Help` — the help texts of the control tool
-/

namespace StripSequencer.Control

/-- What the tool is for. -/
def toolText : String :=
  toolName ++ " talks to a ledseq daemon over Connect (default) or gRPC.

Structural commands (clear, run, pause, edit) change the controller mode.
Between \"edit\" and \"done\", \"add\" appends one instruction to the program.
\"send\" does a whole edit session from an assembly file."

/-- What a command does, at length. -/
def Verb.text : Verb → String
  | .help =>
    "Help provides help for any command in the application.\nSimply type " ++ toolName
      ++ " help [path to command] for full details."
  | .completion =>
    "Generate the autocompletion script for " ++ toolName ++ " for the specified shell.\n"
      ++ "See each sub-command's help for details on how to use the generated script."
  | verb => verb.summary

/-- A name with its summary, the summaries below each other. -/
def summaryLine (name summary : String) : String :=
  "\n  " ++ name ++ String.ofList (List.replicate (11 - name.length) ' ') ++ " " ++ summary

/-- The lines of commands, by name. -/
def summaryLines (entries : List (String × String)) : String :=
  "\n\nAvailable Commands:" ++
    String.join ((entries.mergeSort fun a b => a.1 ≤ b.1).map fun (name, summary) => summaryLine name summary)

/-- The lines of the shared flags, and of others between them. -/
def flagLines (afterGrpc atEnd : String) : String :=
  "\n  -a, --addr string        Sequencer address (host:port) (default \"localhost:4568\")"
    ++ "\n      --grpc               Use gRPC instead of the Connect protocol"
    ++ afterGrpc
    ++ "\n      --timeout duration   Per-request timeout (default 5s)"
    ++ atEnd

/-- The last line of the usage of something that has commands. -/
def moreText (path : String) : String :=
  "\n\nUse \"" ++ path ++ " [command] --help\" for more information about a command."

/-- The usage of the tool. -/
def toolUsage : String :=
  "Usage:\n  " ++ toolName ++ " [command]"
    ++ summaryLines (Verb.every.map fun v => (v.name, v.summary))
    ++ "\n\nFlags:"
    ++ flagLines ("\n  -h, --help               help for " ++ toolName)
        ("\n  -v, --version            version for " ++ toolName)
    ++ moreText toolName ++ "\n"

/-- The shells that completion is for. -/
def shells : List String := ["bash", "zsh", "fish", "powershell"]

/-- The usage of a command. -/
def Verb.usage (verb : Verb) : String :=
  let path := toolName ++ " " ++ verb.name
  let (line, lines, more) :=
    if verb = .completion then
      (path ++ " [command]",
        summaryLines (shells.map fun s => (s, "Generate the autocompletion script for " ++ s)), moreText path)
    else (path ++ verb.argumentText ++ " [flags]", "", "")
  "Usage:\n  " ++ line ++ lines
    ++ "\n\nFlags:\n  -h, --help   help for " ++ verb.name
    ++ "\n\nGlobal Flags:" ++ flagLines "" "" ++ more ++ "\n"

/-- The help on a command, or on the tool. -/
def helpText : Option Verb → String
  | none => toolText ++ "\n\n" ++ toolUsage
  | some verb => verb.text ++ "\n\n" ++ verb.usage

/-- The words for help on something that is no command. -/
def unknownTopicText (topics : List String) : String :=
  "Unknown help topic [" ++ String.intercalate " " (topics.map fun t => "`" ++ t ++ "`") ++ "]\n" ++ toolUsage

end StripSequencer.Control
