import StripSequencer.Proofs.ProgramFrame

/-!
# `StripSequencer.Proofs.Refusals` — what is refused, for which cause, and that it leaves no trace

A client may ignore every refusal, because a refused event changes nothing: commands and loads work on the
sequencer in place, and stop before their first write or not at all. Which events are refused, and
for which cause, depends on the mode, the byte, the policy and the room that is left.

## Contents
- `Command.ofByte?_eq_none_iff`, `Opcode.ofByte?_eq_none_iff`: the bytes that mean something in each mode.
- `Sequencer.refusal?`: the cause for which an event is refused.
- `Transition.cause_outside`, `Transition.cause_entry`, `Transition.cause_load`: the causes, by cases on
  the rules.
- `Refusals`, `refusals_exact`: all of it for every reachable state.
-/

namespace StripSequencer

open Program

/-! ## Bytes -/

theorem Command.ofByte?_eq_none_iff {b : UInt8} : Command.ofByte? b = none ↔ ¬ (1 ≤ b ∧ b ≤ 4) := by
  simp only [Command.ofByte?, UInt8.le_iff_toNat_le, ← UInt8.toNat_inj]
  grind

theorem Command.ofByte?_eq_some_iff {b : UInt8} {c : Command} :
    Command.ofByte? b = some c ↔ b = c.code := by
  constructor
  · intro h
    unfold Command.ofByte? at h
    grind [Command.code]
  · rintro rfl
    cases c <;> rfl

theorem Opcode.ofByte?_eq_none_iff {b : UInt8} : Opcode.ofByte? b = none ↔ b = terminator ∨ 4 < b := by
  simp only [Opcode.ofByte?, terminator, UInt8.lt_iff_toNat_lt, ← UInt8.toNat_inj]
  grind

/-- Every opcode has a byte of its own. -/
@[simp] theorem Opcode.code_inj {op op' : Opcode} : op.code = op'.code ↔ op = op' := by
  cases op <;> cases op' <;> decide

@[simp] theorem Opcode.not_lt_code (op : Opcode) : ¬ 4 < op.code := by
  cases op <;> decide

@[simp] theorem Opcode.terminator_ne_code (op : Opcode) : terminator ≠ op.code := by
  cases op <;> decide

namespace Sequencer

/-! ## Causes -/

/-- The cause of a refusal. -/
def Answer.cause? : Answer → Option Cause
  | .refused why => some why.cause
  | .done | .ticked _ => none

/-- The cause for which an event is refused, if it is. -/
def refusal? (s : Sequencer) (e : Event) : Option Cause := (s.step e).answer.cause?

/-- The policy bars an entry: it is a pixel beyond a strip that refuses those. -/
def Bars (s : Sequencer) (b : UInt8) (payload : Payload) : Prop :=
  s.rules.policy = .reject ∧ b = Opcode.pixel.code ∧ s.rules.leds ≤ payload.first

theorem rejection?_eq_some_iff {s : Sequencer} {op : Opcode} {payload : Payload} {why : Refusal} :
    rejection? s.rules (.ofPayload op payload) = some why
      ↔ s.Bars op.code payload ∧ why = .pixelBeyond payload.first s.rules.leds := by
  cases op <;> simp [rejection?, Instruction.ofPayload, Bars, Opcode.code, eq_comm, and_assoc]

theorem not_bars_of_rejection? {s : Sequencer} {op : Opcode} {payload : Payload}
    (h : rejection? s.rules (.ofPayload op payload) = none) : ¬ s.Bars op.code payload := by
  intro hbars
  rw [rejection?_eq_some_iff.mpr ⟨hbars, rfl⟩] at h
  cases h

variable {s : Sequencer} {b : UInt8} {payload : Payload} {o : Outcome}

/-- The causes outside command entry. -/
theorem Transition.cause_outside {p : List Instruction} (h : s.Holds p) (hm : s.mode ≠ .commandEntry)
    (ht : Transition s (.command b payload) o) (cause : Cause) :
    o.answer.cause? = some cause
      ↔ (cause = .invalidCommand ∧ ¬ (1 ≤ b ∧ b ≤ 4))
        ∨ (cause = .emptyProgram ∧ b = Command.run.code ∧ s.mode ≠ .running ∧ s.program = []) := by
  have hempty : s.store.isEmpty = true ↔ s.program = [] := by
    rw [h.isEmpty_iff, h.program_eq, ← size_eq_zero_iff, size, List.length_eq_zero_iff]
  rw [← Command.ofByte?_eq_none_iff, ← Command.ofByte?_eq_some_iff, ← hempty]
  cases ht with
  | unknownCommand _ hb => simpa [refuse, Answer.cause?, Refusal.cause, hb] using eq_comm
  | clear _ hb => simp [Answer.cause?, hb]
  | runOn hrun hb => simp [Answer.cause?, hb, hrun]
  | nothingToRun hpaused hb he =>
    simpa [refuse, Answer.cause?, Refusal.cause, hb, hpaused, he] using eq_comm
  | run _ hb hfull => simp [Answer.cause?, hb, hfull]
  | pause _ hb => simp [Answer.cause?, hb]
  | enterEdit _ hb => simp [Answer.cause?, hb]
  | exitEdit hentry => exact absurd hentry hm
  | unknownOpcode hentry => exact absurd hentry hm
  | rejected hentry => exact absurd hentry hm
  | noRoom hentry => exact absurd hentry hm
  | append hentry => exact absurd hentry hm

/-- The causes in command entry. -/
theorem Transition.cause_entry (hm : s.mode = .commandEntry)
    (ht : Transition s (.command b payload) o) (cause : Cause) :
    o.answer.cause? = some cause
      ↔ (cause = .invalidOpcode ∧ 4 < b)
        ∨ (cause = .pixelOutOfRange ∧ s.Bars b payload)
        ∨ (cause = .capacityExceeded ∧ ¬ s.Bars b payload
          ∧ ∃ op, b = Opcode.code op ∧ s.Overflows (.ofPayload op payload)) := by
  cases ht with
  | unknownCommand houtside => exact absurd hm houtside
  | clear houtside => exact absurd hm houtside
  | runOn hrun => rw [hm] at hrun; cases hrun
  | nothingToRun hpaused => rw [hm] at hpaused; cases hpaused
  | run hpaused => rw [hm] at hpaused; cases hpaused
  | pause houtside => exact absurd hm houtside
  | enterEdit houtside => exact absurd hm houtside
  | exitEdit =>
    have hle : ¬ 4 < terminator := by decide
    simp [Answer.cause?, Bars, hle]
  | unknownOpcode _ hz hb =>
    -- the byte is above the last opcode, so it is the byte of none
    have hlt : 4 < b := (Opcode.ofByte?_eq_none_iff.mp hb).resolve_left hz
    have hne : ∀ op : Opcode, b ≠ op.code := by
      rintro op rfl
      exact op.not_lt_code hlt
    simpa [refuse, Answer.cause?, Refusal.cause, Bars, hlt, hne] using eq_comm
  | rejected _ hb hr =>
    obtain rfl := Opcode.code_of_ofByte? hb
    obtain ⟨hbars, rfl⟩ := rejection?_eq_some_iff.mp hr
    simpa [refuse, Answer.cause?, Refusal.cause, hbars] using eq_comm
  | noRoom _ hb hr hfull =>
    obtain rfl := Opcode.code_of_ofByte? hb
    simpa [refuse, Answer.cause?, Refusal.cause, not_bars_of_rejection? hr, hfull] using eq_comm
  | append _ hb hr hroom =>
    obtain rfl := Opcode.code_of_ofByte? hb
    simp [Answer.cause?, not_bars_of_rejection? hr, hroom]

/-- The causes of a load. -/
theorem Transition.cause_load {code : List UInt8} (ht : Transition s (.load code) o) (cause : Cause) :
    o.answer.cause? = some cause
      ↔ (cause = .busy ∧ s.mode ≠ .paused)
        ∨ (cause = .capacityExceeded ∧ s.mode = .paused ∧ s.store.capacity < code.length)
        ∨ (cause = .corruptProgram ∧ s.mode = .paused ∧ code.length ≤ s.store.capacity
          ∧ validate code ≠ .ok ()) := by
  cases ht with
  | busy hm => simpa [refuse, Answer.cause?, Refusal.cause, hm] using eq_comm
  | tooLong hm hlen =>
    simpa [refuse, Answer.cause?, Refusal.cause, hm, hlen, Nat.not_le.mpr hlen] using eq_comm
  | corrupt hm hlen hv =>
    simpa [refuse, Answer.cause?, Refusal.cause, hm, hlen, hv, Nat.not_lt.mpr hlen] using eq_comm
  | load hm hlen hv => simp [Answer.cause?, hm, hlen, hv]

/-! ## Every reachable state -/

/-- What `s` refuses, why, and what a refusal leaves. -/
structure Refusals (s : Sequencer) : Prop where
  /-- A command stops at its refusal with the sequencer that it began with, and has made no call by then. -/
  command_stops : ∀ b payload calls why w, InPlace.handle b payload ⟨s, calls⟩ = .error why w → w = ⟨s, calls⟩
  /-- A load stops at its refusal before its first write. -/
  load_stops : ∀ code calls why w, InPlace.load code ⟨s, calls⟩ = .error why w → w = ⟨s, calls⟩
  /-- A refused event changes nothing, and the strip does not hear of it. -/
  traceless : ∀ e, (s.refusal? e).isSome → (s.step e).state = s ∧ (s.step e).calls = #[]
  outside : s.mode ≠ .commandEntry → ∀ b payload cause,
    s.refusal? (.command b payload) = some cause
      ↔ (cause = .invalidCommand ∧ ¬ (1 ≤ b ∧ b ≤ 4))
        ∨ (cause = .emptyProgram ∧ b = Command.run.code ∧ s.mode ≠ .running ∧ s.program = [])
  entry : s.mode = .commandEntry → ∀ b payload cause,
    s.refusal? (.command b payload) = some cause
      ↔ (cause = .invalidOpcode ∧ 4 < b)
        ∨ (cause = .pixelOutOfRange ∧ s.Bars b payload)
        ∨ (cause = .capacityExceeded ∧ ¬ s.Bars b payload ∧ ∃ op, b = Opcode.code op
          ∧ (s.store.remaining < (Instruction.ofPayload op payload).encode.length
            ∨ s.store.capacity < s.appendCursor + (Instruction.ofPayload op payload).encode.length))
  load : ∀ code cause,
    s.refusal? (.load code) = some cause
      ↔ (cause = .busy ∧ s.mode ≠ .paused)
        ∨ (cause = .capacityExceeded ∧ s.mode = .paused ∧ s.store.capacity < code.length)
        ∨ (cause = .corruptProgram ∧ s.mode = .paused ∧ code.length ≤ s.store.capacity
          ∧ validate code ≠ .ok ())

end Sequencer

/-- **Refusals are exact and leave no trace.** -/
theorem refusals_exact {s : Sequencer} (hs : s.Reachable) : s.Refusals := by
  obtain ⟨p, hp⟩ := hs.exists_program
  constructor
  case command_stops => exact fun b payload _ why w => Sequencer.InPlace.traceless_handle b payload _ why w
  case load_stops => exact fun code _ why w => Sequencer.InPlace.traceless_load code _ why w
  case traceless =>
    intro e hsome
    cases hanswer : (s.step e).answer with
    | refused why => rw [Sequencer.step_of_refused hanswer]; exact ⟨rfl, rfl⟩
    | done => simp [Sequencer.refusal?, hanswer, Sequencer.Answer.cause?] at hsome
    | ticked report => simp [Sequencer.refusal?, hanswer, Sequencer.Answer.cause?] at hsome
  case outside =>
    intro hm b payload cause
    exact (s.step_transition _).cause_outside hp hm cause
  case entry =>
    intro hm b payload cause
    simp only [Instruction.length_encode]
    exact (s.step_transition _).cause_entry hm cause
  case load =>
    intro code cause
    exact (s.step_transition _).cause_load cause

/-- In command entry with one byte left, reached after playback was started out of command entry before: a
pixel beyond the strip that does not fit either is refused for its index. -/
theorem refusals_in_full_buffer :
    ∃ first, Sequencer.new
          { leds := 3, capacity := 4, policy := .reject, code := encode [.clear, .delay 1] } = .ok first
      ∧ (first.after [.command 1 {}, .command 4 {}, .command 1 {}, .start, .command 4 {}]).Refusals
      ∧ (first.after [.command 1 {}, .command 4 {}, .command 1 {}, .start, .command 4 {}]).refusal?
          (.command 2 ⟨3, 0, 0, 0⟩) = some .pixelOutOfRange
      ∧ (first.after [.command 1 {}, .command 4 {}, .command 1 {}, .start, .command 4 {}]).refusal?
          (.command 3 {}) = some .capacityExceeded := by
  have hnew := @new_encode
    { leds := 3, capacity := 4, policy := .reject, code := encode [.clear, .delay 1] }
    [.clear, .delay 1] rfl (by decide)
  exact ⟨_, hnew, refusals_exact (Sequencer.Reachable.of_run hnew _), by decide, by decide⟩

end StripSequencer
