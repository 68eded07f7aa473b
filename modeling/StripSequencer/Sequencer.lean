import StripSequencer.Store
import StripSequencer.Player

/-!
# `StripSequencer.Sequencer` — the controller of program entry and playback

A sequencer holds a program and plays it on a strip. Its mode decides what a command does: outside
command entry a byte is a structural command; in command entry it is an opcode to append, or `0` to
leave. Commands and loads work on the sequencer in place, and make their calls on the strip as they go, so what a
refusal leaves is what the statements before it did.

## Contents
- `Sequencer.Setup` and `Sequencer.new`.
- `Work`, `InPlace.handle`, `InPlace.load`: commands and loads, statement by statement; `load`: what a load comes to.
- `tick`, `start`: the operations that cannot be refused.
- `programEnd`, `program`, `snapshot`: what can be seen of a sequencer.
- `Event`, `Answer`, `step`: the four operations as one transition function.
-/

namespace StripSequencer

/-- The program that is there when no other is given: blank the strip, wait, light pixel 1 red, wait. -/
def demoProgram : List Instruction := [.clear, .delay 5, .pixel 1 0xFF 0 0, .delay 5]

/-- The state of a sequencer. -/
structure Sequencer where
  rules : Player.Rules
  store : Store
  mode : Mode
  /-- The offset that the next append is written at; it has a meaning in command entry. -/
  appendCursor : Nat
  /-- Where playback stands. -/
  position : Player.Position
deriving DecidableEq, Repr

namespace Sequencer

/-- What a sequencer is built from. -/
structure Setup where
  leds : UInt8
  capacity : Int := Store.defaultCapacity
  /-- The step bound of a tick; the default bound holds if it is not positive. -/
  maxSteps : Int := Player.defaultMaxSteps
  policy : PixelPolicy := .skip
  code : List UInt8 := Program.encode demoProgram
deriving Repr

/-- The rules of playback that a setup asks for. -/
def Setup.rules (s : Setup) : Player.Rules where
  leds := s.leds
  policy := s.policy
  maxSteps := if 0 < s.maxSteps then s.maxSteps.toNat else Player.defaultMaxSteps

/-- A paused sequencer with the setup's program. -/
def new (s : Setup) : Except Refusal Sequencer := do
  let store ← (Store.empty s.capacity).load s.code
  return ⟨s.rules, store, .paused, 0, ⟨0, 0⟩⟩

/-- The report of a program that cannot be preloaded. -/
def preloadFailure (why : Refusal) : Failure := why.failure.within "preload program"

/-! ## Changes -/

/-- Empties the program and blanks the strip. -/
def clear (s : Sequencer) : Sequencer × Array Strip.Call :=
  ({ s with mode := .paused, store := s.store.reset, appendCursor := 0, position := ⟨0, 0⟩ }, #[.clear])

/-- Stops playback at the current instruction. -/
def pause (s : Sequencer) : Sequencer :=
  { s with mode := .paused, position := { s.position with delay := 0 } }

/-- Begins to append to the program. -/
def enterEdit (s : Sequencer) : Sequencer × Array Strip.Call :=
  ({ s with
      mode := .commandEntry
      position := { s.position with delay := 0 }
      appendCursor := s.store.extent }, #[.clear])

/-- Ends the program at the append cursor and leaves command entry. -/
def exitEdit (s : Sequencer) : Sequencer :=
  { s with
    mode := .paused
    store := (s.store.terminate s.appendCursor).getD s.store
    position := { s.position with cursor := 0 } }

/-- The refusal of an instruction whose pixel is beyond the strip, under the policy that refuses those. -/
def rejection? (rules : Player.Rules) : Instruction → Option Refusal
  | .pixel index .. =>
    if rules.policy = .reject ∧ rules.leds ≤ index then some (.pixelBeyond index rules.leds) else none
  | _ => none

/-! ## Operations in place -/

/-- A sequencer that is worked on, with the calls on the strip so far. -/
structure Work where
  state : Sequencer
  calls : Array Strip.Call := #[]

namespace InPlace

/-- Changes the sequencer. -/
def change (f : Sequencer → Sequencer) : EStateM Refusal Work Unit :=
  modify fun w => { w with state := f w.state }

/-- Changes the sequencer and makes calls. -/
def perform (f : Sequencer → Sequencer × Array Strip.Call) : EStateM Refusal Work Unit :=
  modify fun w => ⟨(f w.state).1, w.calls ++ (f w.state).2⟩

/-- Works on the store. What a refusal leaves of the store is what the sequencer has then. -/
def onStore {α : Type} (op : EStateM Refusal Store α) : EStateM Refusal Work α := fun w =>
  match op w.state.store with
  | .ok a store => .ok a { w with state := { w.state with store } }
  | .error why store => .error why { w with state := { w.state with store } }

/-- Starts playback, unless it goes on already. -/
def run : EStateM Refusal Work Unit := do
  let w ← get
  if w.state.mode = .running then return ()
  else if w.state.store.isEmpty then throw .nothingToRun
  else change fun s => { s with mode := .running }

/-- Does what a byte asks for outside command entry. -/
def handleStructural (b : UInt8) : EStateM Refusal Work Unit :=
  match Command.ofByte? b with
  | none => throw (.unknownCommand b)
  | some .clear => perform clear
  | some .run => run
  | some .pause => change pause
  | some .enterEdit => perform enterEdit

/-- Appends an instruction at the append cursor, and moves the cursor behind it. -/
def append (i : Instruction) : EStateM Refusal Work Unit := do
  let w ← get
  onStore (Store.InPlace.place w.state.appendCursor i)
  change fun s => { s with appendCursor := s.appendCursor + i.size }

/-- Does what a byte asks for in command entry. -/
def handleEntry (b : UInt8) (p : Payload) : EStateM Refusal Work Unit :=
  if b = terminator then change exitEdit
  else
    match Opcode.ofByte? b with
    | none => throw (.unknownOpcode b)
    | some op => do
      let w ← get
      match rejection? w.state.rules (.ofPayload op p) with
      | some why => throw why
      | none => append (.ofPayload op p)

/-- Handles a command byte with its payload, as the mode says. -/
def handle (b : UInt8) (p : Payload) : EStateM Refusal Work Unit := do
  let w ← get
  if w.state.mode = .commandEntry then handleEntry b p else handleStructural b

/-- Replaces the program of a paused sequencer. -/
def load (code : List UInt8) : EStateM Refusal Work Unit := do
  let w ← get
  if w.state.mode = .paused then
    onStore (Store.InPlace.load code)
    change fun s => { s with appendCursor := 0 }
    change fun s => { s with position := { s.position with cursor := 0 } }
    change fun s => { s with position := { s.position with delay := 0 } }
  else throw (.notPaused w.state.mode)

end InPlace

/-! ## Operations -/

/-- What a load comes to. -/
def load (s : Sequencer) (code : List UInt8) : Except Refusal Sequencer :=
  (outcome (InPlace.load code) ⟨s, #[]⟩).map Work.state

/-- Advances playback by one tick, if it is on. -/
def tick (s : Sequencer) : Sequencer × Player.Report × Array Strip.Call :=
  if s.mode = .running then
    let t := Player.tick s.rules s.store.code s.position
    ({ s with position := t.position }, t.report, t.calls)
  else (s, {}, #[])

/-- Blanks the strip and starts playback. Nobody is told if there is nothing to play. -/
def start (s : Sequencer) : Sequencer × Array Strip.Call :=
  match InPlace.run ⟨s, #[.clear]⟩ with
  | .ok _ w | .error _ w => (w.state, w.calls)

/-! ## What can be seen -/

/-- The length of the program. In command entry it ends at the append cursor: the terminator is not there
yet, and the bytes after the cursor are left from an earlier program. -/
def programEnd (s : Sequencer) : Nat :=
  if s.mode = .commandEntry then s.appendCursor else s.store.extent

/-- The code of the program. -/
def program (s : Sequencer) : List UInt8 := s.store.leading s.programEnd

/-- The state at a point in time, as clients see it. -/
structure Snapshot where
  mode : Mode
  capacity : Nat
  remaining : Nat
  length : Nat
  appendCursor : Nat
  playCursor : Nat
  delay : UInt8
deriving DecidableEq, Repr

/-- The state of a sequencer as clients see it. -/
def snapshot (s : Sequencer) : Snapshot where
  mode := s.mode
  capacity := s.store.capacity
  remaining := s.store.remaining
  length := s.programEnd
  appendCursor := s.appendCursor
  playCursor := s.position.cursor
  delay := s.position.delay

/-! ## One transition function -/

/-- What can happen to a sequencer. -/
inductive Event where
  | command (byte : UInt8) (payload : Payload)
  | tick
  | load (code : List UInt8)
  | start
deriving DecidableEq, Repr

/-- What a sequencer answers to an event. -/
inductive Answer where
  | done
  | refused (why : Refusal)
  | ticked (report : Player.Report)
deriving DecidableEq, Repr

/-- What an event comes to. -/
structure Outcome where
  state : Sequencer
  answer : Answer
  calls : Array Strip.Call
deriving Repr

/-- The outcome of an operation in place: the answer, with the state and the calls at its end or where it was refused. -/
def settle (op : EStateM Refusal Work Unit) (s : Sequencer) : Outcome :=
  match op ⟨s, #[]⟩ with
  | .ok _ w => ⟨w.state, .done, w.calls⟩
  | .error why w => ⟨w.state, .refused why, w.calls⟩

/-- The outcome of an event. -/
def step (s : Sequencer) : Event → Outcome
  | .command b p => settle (InPlace.handle b p) s
  | .tick =>
    let (s', report, calls) := s.tick
    ⟨s', .ticked report, calls⟩
  | .load code => settle (InPlace.load code) s
  | .start =>
    let (s', calls) := s.start
    ⟨s', .done, calls⟩

/-- The state after a list of events. -/
def after (s : Sequencer) (events : List Event) : Sequencer :=
  events.foldl (fun s e => (s.step e).state) s

end Sequencer

end StripSequencer
