import StripSequencer.Proofs.Cycle
import StripSequencer.Sequencer

/-!
# `StripSequencer.Proofs.Ideal` — the sequencer over a list of instructions

An `Ideal` sequencer holds its program as a list of instructions: there is no buffer, no terminator and
nothing left over from earlier programs, and playback stands at an index. What must hold of such a state
is part of the structure, so that every operation says how it keeps it.

## Contents
- `Ideal`: the state with its invariant; `Ideal.standing`: the state before a program is played.
- `install`, `pause`, `play`, `enterEdit`, `exitEdit`, `append`, `tick`: the operations on it.
- `obey`, `enter`, `load`, `step`: what an event comes to.
-/

namespace StripSequencer

open Program

/-- A sequencer with a list of instructions for a program. -/
@[ext] structure Ideal where
  rules : Player.Rules
  capacity : Nat
  program : List Instruction
  mode : Mode
  appendCursor : Nat
  /-- The index of the instruction that is played next. -/
  next : Nat
  delay : UInt8
  fits : size program ≤ capacity
  next_le : next ≤ program.length
  aligned : mode = .commandEntry → appendCursor = size program
  playable : mode = .running → program ≠ []
  idle : delay ≠ 0 → mode = .running

namespace Ideal

/-- A paused sequencer before the first instruction of a program. -/
def standing (rules : Player.Rules) (capacity : Nat) (p : List Instruction) (h : size p ≤ capacity) :
    Ideal where
  rules := rules
  capacity := capacity
  program := p
  mode := .paused
  appendCursor := 0
  next := 0
  delay := 0
  fits := h
  next_le := Nat.zero_le _
  aligned := nofun
  playable := nofun
  idle := absurd rfl

/-- The bytes that appends may still take. -/
def free (a : Ideal) : Nat := a.capacity - size a.program

/-- A delay is pending only while playback goes on. -/
theorem delay_eq_zero (a : Ideal) (h : a.mode ≠ .running) : a.delay = 0 :=
  Decidable.byContradiction fun hne => h (a.idle hne)

/-! ## Operations -/

/-- Replaces the program, and stands paused before its first instruction. -/
def install (a : Ideal) (p : List Instruction) (h : size p ≤ a.capacity) : Ideal :=
  standing a.rules a.capacity p h

/-- Empties the program. -/
def clear (a : Ideal) : Ideal := a.install [] (Nat.zero_le _)

/-- Stops playback. -/
def pause (a : Ideal) : Ideal :=
  { a with
    mode := .paused
    delay := 0
    aligned := nofun
    playable := nofun
    idle := absurd rfl }

/-- Starts playback of a program that has an instruction. -/
def play (a : Ideal) (h : a.program ≠ []) : Ideal :=
  { a with
    mode := .running
    aligned := nofun
    playable := fun _ => h
    idle := fun _ => rfl }

/-- Begins to append. -/
def enterEdit (a : Ideal) : Ideal :=
  { a with
    mode := .commandEntry
    appendCursor := size a.program
    delay := 0
    aligned := fun _ => rfl
    playable := nofun
    idle := absurd rfl }

/-- Leaves command entry. -/
def exitEdit (a : Ideal) : Ideal :=
  { a with
    mode := .paused
    next := 0
    delay := 0
    next_le := Nat.zero_le _
    aligned := nofun
    playable := nofun
    idle := absurd rfl }

/-- Appends an instruction that fits. -/
def append (a : Ideal) (i : Instruction) (h : size a.program + i.size ≤ a.capacity) : Ideal :=
  { a with
    program := a.program ++ [i]
    appendCursor := a.appendCursor + i.size
    fits := by simpa using h
    next_le := by
      have hle := a.next_le
      rw [List.length_append]
      omega
    aligned := fun hm => by simp [a.aligned hm]
    playable := fun _ => by simp }

/-- The tick that is next. -/
def nextTick (a : Ideal) : Cycle.Tick := Cycle.tick a.rules a.program a.next a.delay

/-- Plays for a tick. -/
def tick (a : Ideal) (h : a.mode = .running) : Ideal :=
  { a with
    next := a.nextTick.next
    delay := a.nextTick.delay
    next_le := Cycle.tick_next_le a.rules a.next_le a.delay
    idle := fun _ => h }

/-! ## Events -/

/-- What an event comes to. -/
structure Outcome where
  state : Ideal
  answer : Sequencer.Answer
  calls : Array Strip.Call

/-- A refusal changes nothing. -/
def refuse (a : Ideal) (why : Refusal) : Outcome := ⟨a, .refused why, #[]⟩

/-- What a byte comes to outside command entry. -/
def obey (a : Ideal) (b : UInt8) : Outcome :=
  match Command.ofByte? b with
  | none => a.refuse (.unknownCommand b)
  | some .clear => ⟨a.clear, .done, #[.clear]⟩
  | some .run =>
    if a.mode = .running then ⟨a, .done, #[]⟩
    else if h : a.program = [] then a.refuse .nothingToRun
    else ⟨a.play h, .done, #[]⟩
  | some .pause => ⟨a.pause, .done, #[]⟩
  | some .enterEdit => ⟨a.enterEdit, .done, #[.clear]⟩

/-- What an instruction comes to in command entry. -/
def offer (a : Ideal) (i : Instruction) : Outcome :=
  match Sequencer.rejection? a.rules i with
  | some why => a.refuse why
  | none =>
    if h : size a.program + i.size ≤ a.capacity then ⟨a.append i h, .done, #[]⟩
    else a.refuse (.noRoom i.opcode a.free)

/-- An offer is appended if no rule rejects it and it fits, and is refused if not. -/
theorem offer_cases (a : Ideal) (i : Instruction) :
    (Sequencer.rejection? a.rules i = none
        ∧ ∃ h : size a.program + i.size ≤ a.capacity, a.offer i = ⟨a.append i h, .done, #[]⟩)
      ∨ (¬ (Sequencer.rejection? a.rules i = none ∧ size a.program + i.size ≤ a.capacity)
        ∧ ∃ why, a.offer i = a.refuse why) := by
  unfold offer
  cases hr : Sequencer.rejection? a.rules i with
  | some why => exact .inr ⟨nofun, why, rfl⟩
  | none =>
    by_cases hle : size a.program + i.size ≤ a.capacity
    · exact .inl ⟨rfl, hle, dif_pos hle⟩
    · exact .inr ⟨fun h => hle h.2, _, dif_neg hle⟩

theorem offer_answer_iff (a : Ideal) (i : Instruction) :
    (a.offer i).answer = .done
      ↔ Sequencer.rejection? a.rules i = none ∧ size a.program + i.size ≤ a.capacity := by
  rcases a.offer_cases i with ⟨hnone, hle, hoffer⟩ | ⟨hnot, why, hoffer⟩
  · rw [hoffer]
    exact ⟨fun _ => ⟨hnone, hle⟩, fun _ => rfl⟩
  · rw [hoffer]
    exact ⟨nofun, fun h => absurd h hnot⟩

theorem offer_program (a : Ideal) (i : Instruction) :
    (a.offer i).state.program = a.program ++ if (a.offer i).answer = .done then [i] else [] := by
  rcases a.offer_cases i with ⟨_, hle, hoffer⟩ | ⟨_, why, hoffer⟩
  · rw [hoffer, if_pos rfl]
    rfl
  · rw [hoffer, if_neg nofun, List.append_nil]
    rfl

/-- An offer changes neither the setup nor the mode. -/
theorem offer_frame (a : Ideal) (i : Instruction) :
    (a.offer i).state.rules = a.rules ∧ (a.offer i).state.capacity = a.capacity
      ∧ (a.offer i).state.mode = a.mode := by
  rcases a.offer_cases i with ⟨_, hle, hoffer⟩ | ⟨_, why, hoffer⟩
  · rw [hoffer]
    exact ⟨rfl, rfl, rfl⟩
  · rw [hoffer]
    exact ⟨rfl, rfl, rfl⟩

/-- What a byte comes to in command entry. -/
def enter (a : Ideal) (b : UInt8) (payload : Payload) : Outcome :=
  if b = terminator then ⟨a.exitEdit, .done, #[]⟩
  else
    match Opcode.ofByte? b with
    | none => a.refuse (.unknownOpcode b)
    | some op => a.offer (Instruction.ofPayload op payload)

/-- What a program to load comes to. -/
def load (a : Ideal) (code : List UInt8) : Outcome :=
  if a.mode = .paused then
    if h : code.length ≤ a.capacity then
      match validate code with
      | .error flaw => a.refuse (.corrupt flaw)
      | .ok () => ⟨a.install (decode code) (Nat.le_trans (size_decode_le code) h), .done, #[]⟩
    else a.refuse (.tooLong code.length a.capacity)
  else a.refuse (.notPaused a.mode)

/-- What a start of playback comes to. -/
def start (a : Ideal) : Outcome :=
  if h : a.program = [] then ⟨a, .done, #[.clear]⟩ else ⟨a.play h, .done, #[.clear]⟩

/-- The outcome of an event. -/
def step (a : Ideal) : Sequencer.Event → Outcome
  | .command b payload => if a.mode = .commandEntry then a.enter b payload else a.obey b
  | .tick =>
    if h : a.mode = .running then ⟨a.tick h, .ticked a.nextTick.report, a.nextTick.calls⟩
    else ⟨a, .ticked {}, #[]⟩
  | .load code => a.load code
  | .start => a.start

/-- The state after a list of events. -/
def after (a : Ideal) (events : List Sequencer.Event) : Ideal :=
  events.foldl (fun a e => (a.step e).state) a

end Ideal

end StripSequencer
