import StripSequencer.Assembly
import StripSequencer.Control.Help
import StripSequencer.Control.Link

/-!
# `StripSequencer.Control.Run` — carrying out the control tool's commands

A run goes over a link and a file tree. What it did before a failure stays done.

## Contents
- `Site`: the link and the files, with what a run left on them.
- `request`, `sendCommand`, `sendFrom`: one request, one command, all words of a program.
- `Verb.perform`: one command.
- `run`: the tool with its arguments.
-/

namespace StripSequencer.Control

open CommandLine (Transcript)

/-- What the tool works on. -/
structure Site where
  link : Link
  files : FileTree := {}
  /-- The time at which commands are received. -/
  now : Int64 := 0
  /-- How often the sequencer ticks before each of the requests to come; after these it does not tick. -/
  ticks : List Nat := []
  /-- The calls that were made on the strip. -/
  calls : Array Strip.Call := #[]
  /-- What was printed. -/
  out : String := ""

/-- A run on a site that may fail with a message. -/
abbrev Run (α : Type) := ExceptT String (StateM Site) α

/-- Prints a text. -/
def print (text : String) : Run Unit := modify fun s => { s with out := s.out ++ text }

/-- Makes a request over the link. The sequencer has gone on ticking when it is answered. -/
def request {α : Type} (o : Options) (ask : Service → Service.Outcome α) : Run α := do
  let site ← get
  if o.timeout.nanoseconds ≤ 0 then throw (LinkError.timedOut.message o)
  match site.link with
  | .unreachable => throw ((LinkError.unreachable o.address).message o)
  | .connected service =>
    let (worker, calls) := Ticker.ticks (site.ticks.headD 0) service.worker
    let got := ask { service with worker }
    set { site with
      link := .connected got.service
      ticks := site.ticks.tail
      calls := site.calls ++ calls ++ got.calls }
    match got.answer with
    | .ok a => return a
    | .error e => throw ((LinkError.refused e).message o)

/-- Sends a command, which has to be accepted. -/
def sendCommand (o : Options) (command : UInt8) (payload : List UInt8 := []) : Run Unit := do
  let now := (← get).now
  let status ← request o fun s => s.handleFrame now (Frame.encode command payload)
  if status ≠ Status.ok then
    throw ("command 0x" ++ Hexadecimal.byte command ++ " ignored: " ++ status)

/-- Sends a word with its four operand bytes, used or not. -/
def sendWord (o : Options) (w : Word) : Run Unit := sendCommand o w.tag w.operands.toList

/-- Sends the words of `code` from `offset` on until one fails; gives the number of those that were accepted,
added to `count`, and the failure. Every word is read from the code where the one before it ends. -/
def sendFrom (o : Options) (code : List UInt8) (offset count : Nat) (whole : Program.WholeFrom code offset) :
    Run (Nat × Option String) := fun site =>
  if hlt : offset < code.length then
    match sendWord o (Word.readAt code offset).1 site with
    | (.ok (), site) =>
      sendFrom o code (offset + (Word.readAt code offset).2) (count + 1) (whole.next hlt) site
    | (.error e, site) => (.ok (count, some e), site)
  else (.ok (count, none), site)
termination_by code.length - offset
decreasing_by
  have hpos := whole.readAt_pos hlt
  omega

/-- The content of a file. -/
def contentOf (path : String) : Run (List UInt8) := do
  match (← get).files.read path with
  | .ok data => return data
  | .error e => throw (FileTree.readMessage path e)

/-- The image in a file. -/
def imageOf (path : String) : Run Image := do
  match Image.readFrom (← get).files path with
  | .ok img => return img
  | .error e => throw e.failure.message

/-- Appends one instruction. -/
def appendLine (o : Options) (line : String) : Run Unit :=
  match Assembly.assembleLine (Text.ofString line) with
  | .error e => throw e.message
  | .ok none => throw ("no instruction in " ++ (Text.ofString line).quoted)
  | .ok (some i) => sendWord o (Word.ofInstruction i)

/-- Appends the instructions of a file in one edit session. -/
def sendFile (o : Options) (path : String) : Run Unit := do
  match Assembly.assembleProgram (Text.ofBytes (← contentOf path)) with
  | .error e => throw (path ++ ": " ++ e.message)
  | .ok program =>
    sendCommand o Command.enterEdit.code
    let (count, failure) ← sendFrom o (Program.encode program) 0 0 (Program.wholeFrom_encode program)
    sendCommand o terminator
    print ("appended " ++ toString count ++ " instructions\n")
    match failure with
    | some e => throw e
    | none => return ()

/-- Saves the program as an image. -/
def saveImage (o : Options) (path : String) : Run Unit := do
  match Image.decode (← request o Service.snapshot) with
  | .error e => throw e.failure.message
  | .ok img =>
    match img.writeTo (← get).files path with
    | .error e => throw (FileTree.writeMessage path e)
    | .ok files =>
      modify fun s => { s with files }
      print ("wrote " ++ toString img.program.length ++ " byte program to " ++ path ++ "\n")

/-- Loads an image. -/
def loadImage (o : Options) (path : String) : Run Unit := do
  let img ← imageOf path
  let status ← request o (·.load img.encode)
  if status ≠ Status.ok then throw ("load refused: " ++ status)

/-- Prints the program of an image. -/
def listImage (path : String) : Run Unit := do
  let img ← imageOf path
  print ("; " ++ img.magic.display ++ " v" ++ toString img.version.toNat ++ ", capacity "
    ++ toString img.capacity.toInt ++ "\n")
  print (Listing.disassemble img.program)

/-- Carries out a command with its arguments. -/
def Verb.perform (verb : Verb) (o : Options) (given : List String) : Run Unit :=
  let path := given.headD ""
  match verb with
  | .clear => sendCommand o Command.clear.code
  | .run => sendCommand o Command.run.code
  | .pause => sendCommand o Command.pause.code
  | .edit => sendCommand o Command.enterEdit.code
  | .done => sendCommand o terminator
  | .add => appendLine o (String.intercalate " " given)
  | .send => sendFile o path
  | .inspect => do print (← request o Service.inspect)
  | .snapshot => saveImage o path
  | .load => loadImage o path
  | .disassemble => listImage path
  | .help | .completion => return ()

/-- Carries out a command, and gives what it leaves behind. -/
def Verb.transcript (verb : Verb) (o : Options) (given : List String) (site : Site) : Transcript × Site :=
  match verb.perform o given { site with out := "" } with
  | (.ok (), site) => (.printed site.out, site)
  | (.error e, site) => (.failed e site.out, site)

/-- The help on the first of the topics that is a command. -/
def helpOn (topics : List String) : Transcript :=
  match resolve topics with
  | .ok (verb, _) => .printed (helpText verb)
  | .error _ => { err := unknownTopicText topics }

/-- The flags that stand with a command; only the tool itself has a version. -/
def knownFlags : Option Verb → List Flag
  | none => Flag.shared ++ [.help, .version]
  | some _ => Flag.shared ++ [.help]

/-- Carries out a command whose flags are read. -/
def dispatch (verb : Option Verb) (o : Options) (given : List String) (site : Site) : Transcript × Site :=
  if o.help then (.printed (helpText verb), site)
  else if o.version then (.printed (toolName ++ " version " ++ toolVersion ++ "\n"), site)
  else
    match verb with
    | none | some .completion => (.printed (helpText verb), site)
    | some .help => (helpOn given, site)
    | some verb =>
      match checkArguments verb given with
      | .error e => (.failed e.message, site)
      | .ok () => verb.transcript o given site

/-- Runs the tool with arguments. -/
def run (arguments : List String) (site : Site) : Transcript × Site :=
  match resolve arguments with
  | .error e => (.failed e.message, site)
  | .ok (verb, rest) =>
    match Options.parse (knownFlags verb) rest with
    | .error e => (.failed (UsageError.flag e).message, site)
    | .ok (o, given) => dispatch verb o given site

end StripSequencer.Control
