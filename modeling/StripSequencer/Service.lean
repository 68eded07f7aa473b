import StripSequencer.Frame
import StripSequencer.Image
import StripSequencer.Journal
import StripSequencer.Listing
import StripSequencer.Worker

/-!
# `StripSequencer.Service` — the requests that clients can make

A service answers four kinds of request through a worker: a command frame, a listing, an image of the
program, and an image to load. Commands are entered into the journal, if there is one, with the mode
that they were received in and the status that they were answered with.
-/

namespace StripSequencer

/-- A worker with an optional journal. -/
structure Service where
  worker : Worker
  journal : Option Journal := none
deriving Repr

namespace Service

/-- The name of the service. -/
def name : String := "ledseq.v1.SequencerService"

/-- The paths of the four requests. -/
def procedures : List String :=
  ["HandleCommand", "Inspect", "Snapshot", "Load"].map fun p => "/" ++ name ++ "/" ++ p

/-- The two kinds of failure that a client is told. -/
inductive Code where
  | invalidArgument
  | internal
deriving DecidableEq, Repr

/-- Why a request fails. -/
inductive Error where
  | frame (error : Frame.Malformed)
  | image (error : Image.Error)
  | worker (error : Worker.Error)
deriving DecidableEq, Repr

/-- The kind of a failure. -/
def Error.code : Error → Code
  | .frame _ | .image _ => .invalidArgument
  | .worker _ => .internal

/-- The report of a failure. -/
def Error.failure : Error → Failure
  | .frame e => e.failure
  | .image e => e.failure
  | .worker e => e.failure

/-- What a request comes to. -/
structure Outcome (α : Type) where
  service : Service
  calls : Array Strip.Call := #[]
  answer : Except Error α

/-- Runs a task on the worker. -/
def perform {α : Type} (s : Service) (task : Task α) : Outcome α :=
  let out := s.worker.perform task
  ⟨{ s with worker := out.worker }, out.calls, out.answer.mapError .worker⟩

/-- The task of a command: the mode before it, and its status. -/
def commandTask (command : UInt8) (payload : Payload) : Task (Mode × String) := fun s =>
  match Sequencer.InPlace.handle command payload ⟨s, #[]⟩ with
  | .ok _ w => { state := w.state, calls := w.calls, value := .ok (s.mode, Status.ok) }
  | .error why w => { state := w.state, calls := w.calls, value := .ok (s.mode, Status.ofFailure why.failure) }

/-- The service with a command entered into its journal. A journal that refuses the entry is left as it
is. -/
def recorded (s : Service) (now : Int64) (command : UInt8) (payload : Payload) (mode : Mode)
    (status : String) : Service :=
  match s.journal with
  | none => s
  | some j =>
    match j.record now command payload mode.name status with
    | .ok j' => { s with journal := some j' }
    | .error _ => s

/-- Handles a command frame, and gives its status. -/
def handleFrame (s : Service) (now : Int64) (frame : List UInt8) : Outcome String :=
  match Frame.parse frame with
  | .error e => ⟨s, #[], .error (.frame e)⟩
  | .ok (command, payload) =>
    let out := s.perform (commandTask command payload)
    match out.answer with
    | .error e => ⟨out.service, out.calls, .error e⟩
    | .ok (mode, status) =>
      ⟨out.service.recorded now command payload mode status, out.calls, .ok status⟩

/-- The listing of the sequencer. -/
def inspect (s : Service) : Outcome String := s.perform (Task.look Sequencer.listing)

/-- The program as the bytes of an image. -/
def snapshot (s : Service) : Outcome (List UInt8) :=
  s.perform (Task.look fun seq => (Image.ofSequencer seq).encode)

/-- The task of loading code, which gives its status. -/
def loadTask (code : List UInt8) : Task String := fun s =>
  match Sequencer.InPlace.load code ⟨s, #[]⟩ with
  | .ok _ w => { state := w.state, calls := w.calls, value := .ok Status.ok }
  | .error why w => { state := w.state, calls := w.calls, value := .ok (Status.ofFailure why.failure) }

/-- Loads the program of an image, and gives the status. -/
def load (s : Service) (data : List UInt8) : Outcome String :=
  match Image.decode data with
  | .error e => ⟨s, #[], .error (.image e)⟩
  | .ok img => s.perform (loadTask img.program)

end Service

end StripSequencer
