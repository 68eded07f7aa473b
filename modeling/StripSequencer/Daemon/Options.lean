import StripSequencer.CommandLine.Transcript
import StripSequencer.Text.Quoted

/-!
# `StripSequencer.Daemon.Options` — the flags of the daemon

Flags come first among the arguments, with one hyphen or two. A switch may have a value after `=`; the value
of any other flag stands there or is the next argument. The first argument that is no flag ends them.

## Contents
- `Flag`, `Options`, and `FlagError` with its words.
- `usage`: the text that explains the flags.
- `Options.parse`.
-/

namespace StripSequencer.Daemon

/-- The flags of the daemon. -/
inductive Flag where
  | directory
  | listen
  | log
  | languageServer
  | noRender
  | verbose
deriving DecidableEq, Repr

namespace Flag

/-- All flags, by name. -/
def every : List Flag := [.directory, .listen, .log, .languageServer, .noRender, .verbose]

/-- The name of a flag. -/
def name : Flag → String
  | .directory => "C"
  | .listen => "listen"
  | .log => "log"
  | .languageServer => "lsp"
  | .noRender => "no-render"
  | .verbose => "v"

/-- What a flag does. -/
def summary : Flag → String
  | .directory => "Directory to search for ledseq.toml (default \".\")"
  | .listen => "Override server.listen"
  | .log => "Log file (default stderr)"
  | .languageServer => "Run the assembly language server on stdio"
  | .noRender => "Do not draw the strip on stdout"
  | .verbose => "Increase log verbosity (repeatable)"

/-- The flag needs no value. -/
def isSwitch : Flag → Bool
  | .directory | .listen | .log => false
  | .languageServer | .noRender | .verbose => true

/-- The lines that explain a flag. The summary of a switch of one letter stands beside it. -/
def usage (f : Flag) : String :=
  let head := "  -" ++ f.name ++ if f.isSwitch then "" else " string"
  let gap := if f.isSwitch && f.name.length = 1 then "\t" else "\n    \t"
  head ++ gap ++ f.summary ++ "\n"

/-- The flag with a name. -/
def ofName? (name : String) : Option Flag := every.find? (·.name = name)

end Flag

/-- What the flags say. -/
structure Options where
  directory : String := "."
  /-- The address to listen at; an empty one leaves it to the settings. -/
  listen : String := ""
  log : String := ""
  languageServer : Bool := false
  render : Bool := true
  verbosity : Nat := 0
deriving DecidableEq, Repr

/-- Why the flags are not acted upon. -/
inductive FlagError where
  /-- The usage is asked for. -/
  | help
  | undefined (name : String)
  | needsValue (name : String)
  | badSwitch (value name : String)
  | malformed (argument : String)
deriving DecidableEq, Repr

/-- The line for what is wrong with the flags. -/
def FlagError.message : FlagError → String
  | .help => ""
  | .undefined name => "flag provided but not defined: -" ++ name ++ "\n"
  | .needsValue name => "flag needs an argument: -" ++ name ++ "\n"
  | .badSwitch value name =>
    "invalid boolean value " ++ (Text.ofString value).quoted ++ " for -" ++ name ++ ": parse error\n"
  | .malformed argument => "bad flag syntax: " ++ argument ++ "\n"

/-- The text that explains the flags. -/
def usage : String :=
  "Usage: ledseq [options]\n\nPlays the configured LED program and serves sequencer commands.\n\nOptions:\n"
    ++ String.join (Flag.every.map Flag.usage)
    ++ "\nExamples:\n"
    ++ "  ledseq                      # Use ./ledseq.toml or defaults\n"
    ++ "  ledseq -v -v -listen :9000  # Debug logging, serve on :9000\n"
    ++ "  ledseq -lsp -log lsp.log    # Editor support for .seq files\n"

/-- What is left behind when the flags are not acted upon. -/
def FlagError.transcript (e : FlagError) : CommandLine.Transcript :=
  { exit := if e = .help then 0 else 2, err := e.message ++ usage }

/-! ## Reading -/

/-- What an argument says. -/
inductive Reading where
  /-- The flags are over. -/
  | over
  | given (flag : Flag) (value : Option String)

/-- Reads a flag without its hyphens. An `=` in the first place is no separator. -/
def readFlag (argument : String) (body : List Char) : Except FlagError Reading :=
  match body with
  | [] => .error (.malformed argument)
  | first :: rest =>
    if first = '-' || first = '=' then .error (.malformed argument)
    else
      let name := String.ofList (first :: rest.takeWhile (· ≠ '='))
      let value := match rest.dropWhile (· ≠ '=') with
        | [] => none
        | _ :: value => some (String.ofList value)
      match Flag.ofName? name with
      | some f => .ok (.given f value)
      | none => .error (if name = "help" ∨ name = "h" then .help else .undefined name)

/-- Reads an argument. -/
def readArgument (argument : String) : Except FlagError Reading :=
  match argument.toList with
  | ['-', '-'] => .ok .over
  | '-' :: '-' :: body => readFlag argument body
  | '-' :: c :: rest => readFlag argument (c :: rest)
  | _ => .ok .over

namespace Options

/-- The options with a switch set. Each `verbose` counts, whatever its value. -/
def switch (o : Options) (f : Flag) (value : String) : Except FlagError Options :=
  if f = .verbose then .ok { o with verbosity := o.verbosity + 1 }
  else
    match CommandLine.truthValue? value with
    | none => .error (.badSwitch value f.name)
    | some b =>
      .ok (match f with
        | .languageServer => { o with languageServer := b }
        | .noRender => { o with render := !b }
        | _ => o)

/-- The options with a flag that has a value set. -/
def assign (o : Options) (f : Flag) (value : String) : Options :=
  match f with
  | .directory => { o with directory := value }
  | .listen => { o with listen := value }
  | .log => { o with log := value }
  | _ => o

/-- Reads the flags. -/
def parseFrom (o : Options) : List String → Except FlagError Options
  | [] => .ok o
  | argument :: rest =>
    match readArgument argument with
    | .error e => .error e
    | .ok .over => .ok o
    | .ok (.given f value) =>
      if f.isSwitch then
        match o.switch f (value.getD "true") with
        | .error e => .error e
        | .ok o => parseFrom o rest
      else
        match value, rest with
        | some value, rest => parseFrom (o.assign f value) rest
        | none, value :: rest => parseFrom (o.assign f value) rest
        | none, [] => .error (.needsValue f.name)

/-- The options that arguments ask for. -/
def parse (arguments : List String) : Except FlagError Options := parseFrom {} arguments

end Options

end StripSequencer.Daemon
