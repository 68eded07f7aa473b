import StripSequencer.Control.Run
import StripSequencer.Daemon.Run

/-!
# `StripSequencer.Main` — the command line

With `ctl` as its first argument the program is the control tool, and otherwise the daemon. It reads the
files that the arguments and the settings name, hands them to the library, and prints what comes back.
-/

namespace StripSequencer.Console

open CommandLine (Transcript)

/-- What stands at a path, if anything does. What can be opened but not read is a directory. -/
def nodeAt (path : Text) : IO (Option FileNode) := do
  try
    return some (.file (← IO.FS.readBinFile path.display).toList)
  catch _ =>
    try
      let _ ← IO.FS.Handle.mk path.display .read
      return some .directory
    catch _ => return none

/-- The file tree with what stands at paths added. -/
def withPaths (files : FileTree) (paths : List Text) : IO FileTree := do
  let mut nodes := files.nodes
  for path in paths do
    let place := (Path.components (files.absolute path)).filter (· ≠ [])
    if let some node ← nodeAt path then
      nodes := (place, node) :: nodes
  return { files with nodes }

/-- The file tree that holds the current directory only. -/
def emptyTree : IO FileTree := do
  let current := (Path.components (← IO.currentDir).toString).filter (· ≠ [])
  return { nodes := [(current, .directory)], current }

/-- Prints what a command left behind. -/
def report (t : Transcript) : IO UInt32 := do
  IO.print t.out
  IO.eprint t.err
  return t.exit.toUInt32

/-- Runs the control tool. -/
def control (arguments : List String) : IO UInt32 := do
  let files ← withPaths (← emptyTree) ((arguments.filter (· ≠ "")).map .ofString)
  report (Control.run arguments { link := .unreachable, files }).1

/-- The files that a daemon looks at. -/
def daemonFiles (directory : String) : IO FileTree := do
  let base ← emptyTree
  let candidates := (Path.upward (base.absolute directory)).map (Path.join · Settings.fileName)
  let files ← withPaths base candidates
  match Settings.find files directory with
  | .ok (some s) => withPaths files ([s.imagePath, s.journalPath].filter (· ≠ []))
  | _ => return files

/-- Reads the header of a frame. -/
partial def readHeaderText (input : IO.FS.Stream) (seen : String) : IO String := do
  let line ← input.getLine
  if line.isEmpty || line = "\r\n" then return seen ++ line
  readHeaderText input (seen ++ line)

/-- Reads bytes until there are enough, or the input ends. -/
partial def readBytes (input : IO.FS.Stream) (count : Nat) (seen : List UInt8) : IO (List UInt8) := do
  if count ≤ seen.length then return seen
  let more ← input.read (USize.ofNat (count - seen.length))
  if more.isEmpty then return seen
  readBytes input count (seen ++ more.toList)

/-- Serves an editor until it goes away. -/
partial def serveEditor (input output : IO.FS.Stream) (s : LanguageServer.Session) : IO Unit := do
  let header := (← readHeaderText input "").toUTF8.toList
  let some (length, _) := LanguageServer.readHeader header.length 0 header | return
  let body ← readBytes input length []
  let some (text, s) := LanguageServer.serveBody? s body | return
  output.putStr text
  output.flush
  serveEditor input output s

/-- Plays until the process is ended from outside. -/
partial def play (d : Daemon.Playing) : IO Unit := do
  IO.sleep (UInt32.ofNat (max 1 (d.tick.nanoseconds.toInt.toNat / Duration.millisecond)))
  let d := d.step
  IO.print d.out
  (← IO.getStdout).flush
  play { d with out := "" }

/-- Runs the daemon. -/
def daemon (arguments : List String) : IO UInt32 := do
  match Daemon.Options.parse arguments with
  | .error e => report e.transcript
  | .ok o =>
    let files ← daemonFiles o.directory
    match o.languageServer, Daemon.settingsFrom files o.directory with
    | true, .ok s =>
      serveEditor (← IO.getStdin) (← IO.getStdout) { capacity := s.capacity.toInt }
      return 0
    | _, _ =>
      match Daemon.start files arguments [] with
      | .finished t => report t
      | .playing d =>
        play d
        return 0

end StripSequencer.Console

/-- The program. -/
def main (arguments : List String) : IO UInt32 :=
  match arguments with
  | "ctl" :: rest => StripSequencer.Console.control rest
  | _ => StripSequencer.Console.daemon arguments
