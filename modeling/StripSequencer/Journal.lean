import StripSequencer.FileTree
import StripSequencer.Instruction
import StripSequencer.Refusal

/-!
# `StripSequencer.Journal` — the log of received commands

A journal is a list of entries to which entries are added at the end; the first one has the number 1. A
closed journal refuses everything until it is opened again.
-/

namespace StripSequencer

namespace Journal

/-- A recorded command. -/
structure Entry where
  id : Nat
  /-- Nanoseconds since the epoch. -/
  time : Int64
  command : UInt8
  payload : Payload
  /-- The mode that the command was received in. -/
  mode : String
  /-- The status that it was answered with. -/
  status : String
deriving DecidableEq, Repr

/-- What is done with a journal. -/
inductive Action where
  | record
  | query
  | count
deriving DecidableEq, Repr

/-- The words for an action. -/
def Action.text : Action → String
  | .record => "recording command"
  | .query => "querying commands"
  | .count => "counting commands"

/-- Why a journal refuses an action. -/
inductive Error where
  | closed
  | canceled (action : Action)
deriving DecidableEq, Repr

/-- The report of a refused action. -/
def Error.failure : Error → Failure
  | .closed => ⟨Cause.journalClosed.text, [.journalClosed]⟩
  | .canceled action => ⟨action.text ++ ": context canceled", []⟩

/-- Why a journal cannot be opened. -/
inductive OpenError where
  /-- The file cannot be opened or made. -/
  | unreachable
  /-- The file holds something else. -/
  | foreign
deriving DecidableEq, Repr

/-- The step at which opening fails. -/
def OpenError.stage : OpenError → String
  | .unreachable => "setting busy timeout"
  | .foreign => "creating table"

/-- The words for a journal that cannot be opened. -/
def OpenError.message (e : OpenError) : String :=
  e.stage ++ ": " ++
    match e with
    | .unreachable => "unable to open database file: out of memory (14)"
    | .foreign => "file is not a database (26)"

/-- A journal file can be opened if it is there and empty, or can be made. -/
def checkFile (files : FileTree) (path : Text) : Except OpenError Unit :=
  match files.read path with
  | .ok [] => .ok ()
  | .ok _ => .error .foreign
  | .error .missing =>
    match files.write path [] with
    | .ok _ => .ok ()
    | .error _ => .error .unreachable
  | .error _ => .error .unreachable

end Journal

/-- A log of commands. -/
structure Journal where
  path : Text
  /-- The entries, oldest first. -/
  entries : List Journal.Entry := []
  isOpen : Bool := true
deriving Repr

namespace Journal

/-- The journal, opened again. -/
def reopen (j : Journal) : Journal := { j with isOpen := true }

/-- The journal, closed. -/
def close (j : Journal) : Journal := { j with isOpen := false }

/-- Refuses an action on a closed journal, or one that was given up before it began. -/
def permit (j : Journal) (action : Action) (canceled : Bool) : Except Error Unit :=
  if !j.isOpen then .error .closed else if canceled then .error (.canceled action) else .ok ()

/-- Adds an entry for a command. -/
def record (j : Journal) (time : Int64) (command : UInt8) (payload : Payload) (mode status : String)
    (canceled : Bool := false) : Except Error Journal := do
  j.permit .record canceled
  return { j with entries := j.entries ++ [⟨j.entries.length + 1, time, command, payload, mode, status⟩] }

/-- The newest entries, oldest first, at most `limit` of them; a negative limit is none. -/
def recent (j : Journal) (limit : Int) (canceled : Bool := false) : Except Error (List Entry) := do
  j.permit .query canceled
  return if limit < 0 then j.entries else j.entries.drop (j.entries.length - limit.toNat)

/-- The number of entries. -/
def count (j : Journal) (canceled : Bool := false) : Except Error Nat := do
  j.permit .count canceled
  return j.entries.length

end Journal

end StripSequencer
