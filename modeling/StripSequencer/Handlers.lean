import StripSequencer.Dispatch
import StripSequencer.Service

/-!
# `StripSequencer.Handlers` — many clients of one service

Every command frame that comes in has a handler of its own. A handler calls the worker, which serves one handler
at a time, and enters what it is told into the journal afterwards. The journal takes one entry at a time, but it has
nothing to do with the worker: between the two steps of one handler, others may take any number of steps. A frame that
is malformed is answered before either step is reached.

## Contents
- `Handlers`: the callers of a worker, with a journal and the handlers that have made their entry.
- `Handlers.Event`, `Handlers.Step`, `Handlers.Run`: what can happen, in any order that the rules allow.
-/

namespace StripSequencer

/-- The handlers of commands, told apart by `ι`, with the worker that they call and their journal. -/
structure Handlers (ι : Type) where
  dispatch : Dispatch ι (Mode × String)
  journal : Journal
  /-- The handler has made its entry. -/
  done : ι → Bool := fun _ => false

namespace Handlers

/-- What can happen: a step of a caller or of the worker, or an entry of a handler. -/
inductive Event (ι : Type) where
  | work (e : Dispatch.Event ι (Mode × String))
  | record (c : ι)

variable {ι : Type}

/-- The tasks of handlers with the given commands. -/
def tasks (commands : ι → UInt8 × Payload) (c : ι) : Task (Mode × String) :=
  Service.commandTask (commands c).1 (commands c).2

/-- Handlers that have not begun, with a new journal. -/
def idle (s : Sequencer) (path : Text) : Handlers ι where
  dispatch := { sequencer := s }
  journal := { path }

variable [DecidableEq ι]

/-- The rules: a handler that the worker has told the mode and the status of its command enters them, once, at some
time; one that was told of a failure enters nothing. -/
inductive Step (commands : ι → UInt8 × Payload) (h : Handlers ι) : Event ι → Handlers ι → Prop where
  | work {e : Dispatch.Event ι (Mode × String)} {d : Dispatch ι (Mode × String)}
      (step : Dispatch.Step (tasks commands) h.dispatch e d) : Step commands h (.work e) { h with dispatch := d }
  | record {c : ι} {mode : Mode} {status : String} {j : Journal} (now : Int64)
      (told : h.dispatch.stage c = .returned (.ok (mode, status))) (first : h.done c = false)
      (recorded : h.journal.record now (commands c).1 (commands c).2 mode.name status = .ok j) :
      Step commands h (.record c) { h with journal := j, done := Dispatch.assign h.done c true }

/-- What happened from `start` on, in order, and what it led to. -/
inductive Run (commands : ι → UInt8 × Payload) (start : Handlers ι) : List (Event ι) → Handlers ι → Prop where
  | nil : Run commands start [] start
  | snoc {trace : List (Event ι)} {h h' : Handlers ι} {e : Event ι} (run : Run commands start trace h)
      (step : Step commands h e h') : Run commands start (trace ++ [e]) h'

end Handlers

end StripSequencer
