import StripSequencer.Worker

/-!
# `StripSequencer.Dispatch` — many callers of one worker

Any number of callers hand tasks to a worker at the same time. A caller puts its request into a queue of
bounded length and waits for a reply of its own; the worker takes one request after the other from the front
of the queue, runs its task and leaves the reply. Anyone may stop the worker at any time. A caller that waits
may then give up, and the worker may leave or go on with the queue: both are allowed wherever both can happen.

## Contents
- `Dispatch`: the calls with their stages, the queue, the worker's activity, the replies and the stop mark.
- `Dispatch.Event`, `Dispatch.Step`: what can happen, one rule for each thing that a caller or the worker does.
- `Dispatch.Run`: the events from a start on, in any order that the rules allow.
-/

namespace StripSequencer

namespace Dispatch

/-- The number of requests that the queue holds. -/
def queueLimit : Nat := 64

/-- How far a call has come. -/
inductive Stage (α : Type) where
  /-- The call has not begun. -/
  | idle
  /-- The call is about to look at the stop mark. -/
  | begun
  /-- The call waits for room in the queue. -/
  | submitting
  /-- The call waits for its reply. -/
  | waiting
  | returned (answer : Except Worker.Error α)

/-- What the worker is at. -/
inductive Activity (ι α : Type) where
  /-- It waits for a request. -/
  | ready
  /-- It runs the task of a call. -/
  | running (call : ι)
  /-- It has run the task of a call, and has not replied. -/
  | replying (call : ι) (value : Except String α)
  /-- It has left. -/
  | ended

/-- `f` with another value at `x`. -/
def assign {ι β : Type} [DecidableEq ι] (f : ι → β) (x : ι) (b : β) : ι → β :=
  fun y => if y = x then b else f y

end Dispatch

/-- A worker with its callers. Calls are told apart by `ι`, and a value has type `α`. -/
structure Dispatch (ι α : Type) where
  sequencer : Sequencer
  /-- The calls that the tasks made on the strip. -/
  calls : Array Strip.Call := #[]
  activity : Dispatch.Activity ι α := .ready
  /-- The requests that were not taken yet, the oldest first. -/
  queue : List ι := []
  /-- The replies that were not collected yet; there is room for one for each call. -/
  replies : ι → Option (Except String α) := fun _ => none
  /-- The stop mark. -/
  stopped : Bool := false
  stage : ι → Dispatch.Stage α := fun _ => .idle

namespace Dispatch

/-- What can happen. -/
inductive Event (ι α : Type) where
  /-- A call begins. -/
  | call (c : ι)
  /-- A call finds the worker not stopped. -/
  | pass (c : ι)
  /-- A call puts its request into the queue. -/
  | submit (c : ι)
  /-- The worker takes the request of a call and starts to run its task. -/
  | take (c : ι)
  /-- The task of a call ends. -/
  | finish (c : ι)
  /-- The worker replies to a call. -/
  | reply (c : ι)
  /-- A call returns. -/
  | returns (c : ι) (answer : Except Worker.Error α)
  /-- The worker is told to stop. -/
  | stop
  /-- The worker leaves. -/
  | leave

variable {ι α : Type} [DecidableEq ι]

/-- The call goes on to a stage. -/
def advance (d : Dispatch ι α) (c : ι) (stage : Stage α) : Dispatch ι α :=
  { d with stage := assign d.stage c stage }

/-- The rules: what can happen, when, and what it leads to. The task of each call is given. -/
inductive Step (tasks : ι → Task α) (d : Dispatch ι α) : Event ι α → Dispatch ι α → Prop where
  -- a call begins, and looks at the stop mark
  | call {c : ι} (idle : d.stage c = .idle) : Step tasks d (.call c) (d.advance c .begun)
  | pass {c : ι} (begun : d.stage c = .begun) (serving : d.stopped = false) :
      Step tasks d (.pass c) (d.advance c .submitting)
  | refuse {c : ι} (begun : d.stage c = .begun) (stopped : d.stopped = true) :
      Step tasks d (.returns c (.error .stopped)) (d.advance c (.returned (.error .stopped)))
  -- it submits its request as soon as there is room, or gives up
  | submit {c : ι} (submitting : d.stage c = .submitting) (room : d.queue.length < queueLimit) :
      Step tasks d (.submit c) { d.advance c .waiting with queue := d.queue ++ [c] }
  | abandon {c : ι} (submitting : d.stage c = .submitting) (stopped : d.stopped = true) :
      Step tasks d (.returns c (.error .stopped)) (d.advance c (.returned (.error .stopped)))
  -- the worker serves the queue, or leaves
  | take {c : ι} {rest : List ι} (ready : d.activity = .ready) (front : d.queue = c :: rest) :
      Step tasks d (.take c) { d with activity := .running c, queue := rest }
  | finish {c : ι} (running : d.activity = .running c) :
      Step tasks d (.finish c)
        { d with
          sequencer := (tasks c d.sequencer).state
          calls := d.calls ++ (tasks c d.sequencer).calls
          activity := .replying c (tasks c d.sequencer).value }
  | reply {c : ι} {value : Except String α} (replying : d.activity = .replying c value)
      (room : d.replies c = none) :
      Step tasks d (.reply c) { d with activity := .ready, replies := assign d.replies c (some value) }
  | leave (ready : d.activity = .ready) (stopped : d.stopped = true) :
      Step tasks d .leave { d with activity := .ended }
  -- the call collects its reply, or gives up
  | collect {c : ι} {value : Except String α} (waiting : d.stage c = .waiting)
      (replied : d.replies c = some value) :
      Step tasks d (.returns c (value.mapError .brokeOff))
        { d.advance c (.returned (value.mapError .brokeOff)) with replies := assign d.replies c none }
  | withdraw {c : ι} (waiting : d.stage c = .waiting) (stopped : d.stopped = true) :
      Step tasks d (.returns c (.error .stopped)) (d.advance c (.returned (.error .stopped)))
  -- the worker may be told to stop any number of times
  | stop : Step tasks d .stop { d with stopped := true }

/-- What happened from `start` on, in order, and what it led to. -/
inductive Run (tasks : ι → Task α) (start : Dispatch ι α) : List (Event ι α) → Dispatch ι α → Prop where
  | nil : Run tasks start [] start
  | snoc {trace : List (Event ι α)} {d d' : Dispatch ι α} {e : Event ι α} (run : Run tasks start trace d)
      (step : Step tasks d e d') : Run tasks start (trace ++ [e]) d'

end Dispatch

end StripSequencer
