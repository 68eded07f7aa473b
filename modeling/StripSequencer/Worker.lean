import StripSequencer.Sequencer

/-!
# `StripSequencer.Worker` — one task at a time on a sequencer

A worker owns a sequencer and runs tasks on it one after the other, until it is stopped. A task that
fails in its middle keeps what it did before; its failure is the answer.

## Contents
- `Task`, `Worker.perform`.
- `Ticker`: ticks that go through a worker, with a hook after each.
-/

namespace StripSequencer

/-- What a task on a sequencer comes to: the state it leaves, the calls it makes on the strip, and its
value or the text that it broke off with. -/
structure Task.Result (α : Type) where
  state : Sequencer
  calls : Array Strip.Call := #[]
  value : Except String α

/-- A task on a sequencer. -/
abbrev Task (α : Type) := Sequencer → Task.Result α

/-- A task that looks at the sequencer and changes nothing. -/
def Task.look {α : Type} (f : Sequencer → α) : Task α := fun s => { state := s, value := .ok (f s) }

/-- A task that breaks off at once. -/
def Task.breakOff {α : Type} (text : String) : Task α := fun s => { state := s, value := .error text }

/-- A sequencer with the worker that runs tasks on it. -/
structure Worker where
  sequencer : Sequencer
  stopped : Bool := false
deriving Repr

namespace Worker

/-- Why a worker has no value to give. -/
inductive Error where
  | stopped
  | brokeOff (text : String)
deriving DecidableEq, Repr

/-- The report of a worker's failure. -/
def Error.failure : Error → Failure
  | .stopped => ⟨Cause.stopped.text, [.stopped]⟩
  | .brokeOff text => ⟨text, []⟩

/-- What a worker gives: itself after the task, the calls on the strip, and the answer. -/
structure Outcome (α : Type) where
  worker : Worker
  calls : Array Strip.Call := #[]
  answer : Except Error α

/-- Runs a task, unless the worker is stopped. -/
def perform {α : Type} (w : Worker) (task : Task α) : Outcome α :=
  if w.stopped then ⟨w, #[], .error .stopped⟩
  else
    let r := task w.sequencer
    ⟨{ w with sequencer := r.state }, r.calls, r.value.mapError .brokeOff⟩

/-- The worker, stopped. -/
def stop (w : Worker) : Worker := { w with stopped := true }

end Worker

namespace Ticker

/-- What is done after a tick: nothing, or a failure with a text. -/
abbrev Hook := Player.Report → Except String Unit

/-- The task of a tick with a hook after it. -/
def task (hook : Hook) : Task Player.Report := fun s =>
  let (s', report, calls) := s.tick
  { state := s', calls, value := (hook report).map fun _ => report }

/-- One tick, with its report. -/
def step (w : Worker) (hook : Hook := fun _ => .ok ()) : Worker.Outcome Player.Report :=
  w.perform (task hook)

/-- Ticks `n` times; gives the worker after it and the calls that were made. -/
def ticks : Nat → Worker → Worker × Array Strip.Call
  | 0, w => (w, #[])
  | n + 1, w =>
    let rest := ticks n (step w).worker
    (rest.1, (step w).calls ++ rest.2)

/-- Ticks `n` times, and stops the worker with the last one. The reports stand in the order of the
ticks. A worker that is stopped already does not tick. -/
def runUntilStop : Nat → Worker → Worker.Outcome (List Player.Report)
  | 0, w => ⟨w.stop, #[], .ok []⟩
  | n + 1, w =>
    match (step w).answer with
    | .error _ => ⟨w, #[], .ok []⟩
    | .ok report =>
      let rest := runUntilStop n (step w).worker
      ⟨rest.worker, (step w).calls ++ rest.calls, rest.answer.map (report :: ·)⟩

/-- Ticks until the run is cancelled, which is after as many ticks as the first argument says, or until the hook fails.
A worker that is stopped ends the run without a failure, as its cancellation does. -/
def run : Nat → Worker → Hook → Worker.Outcome Unit
  | 0, w, _ => ⟨w, #[], .ok ()⟩
  | n + 1, w, hook =>
    let out := step w hook
    match out.answer with
    | .error .stopped => ⟨out.worker, out.calls, .ok ()⟩
    | .error (.brokeOff text) => ⟨out.worker, out.calls, .error (.brokeOff text)⟩
    | .ok _ =>
      let rest := run n out.worker hook
      ⟨rest.worker, out.calls ++ rest.calls, rest.answer⟩

end Ticker

end StripSequencer
