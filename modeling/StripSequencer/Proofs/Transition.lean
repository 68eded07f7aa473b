import StripSequencer.Proofs.Layout
import StripSequencer.Proofs.Runs

/-!
# `StripSequencer.Proofs.Transition` — everything that a step of a sequencer can do

`Transition s e o` lists the rules of the controller, one constructor for each thing that an event can
come to, with the condition under which it does. `step_transition` says that every step follows one of
them. What holds of all steps is then shown by cases on the rules, and no definition is opened again.

## Contents
- `Sequencer.Transition`: the rules outside command entry, in command entry, and for ticks, loads and starts.
- `step_transition`: every step follows a rule; `Transition.step_eq`: a rule that applies is what happens.
- `Transition.setup_kept`: what no rule changes.
- `Sequencer.Reachable`: the states of all runs of new sequencers.
-/

namespace StripSequencer

/-- The terminator is no opcode. -/
theorem Opcode.ne_terminator_of_ofByte? {b : UInt8} {op : Opcode} (h : Opcode.ofByte? b = some op) :
    b ≠ terminator := by
  rintro rfl
  cases h

namespace Sequencer

/-- A refusal leaves the state as it is and makes no call. -/
def refuse (s : Sequencer) (why : Refusal) : Outcome := ⟨s, .refused why, #[]⟩

/-- An instruction takes more than what remains, or runs past the end of the buffer. -/
def Overflows (s : Sequencer) (i : Instruction) : Prop :=
  s.store.remaining < i.size ∨ s.store.capacity < s.appendCursor + i.size

/-- The state with an instruction written at the append cursor. -/
def extended (s : Sequencer) (i : Instruction) : Sequencer :=
  { s with
    store := ⟨overwrite s.store.code s.appendCursor i.encode, s.store.remaining - i.size⟩
    appendCursor := s.appendCursor + i.size }

/-- The state with a program loaded. -/
def replaced (s : Sequencer) (code : List UInt8) : Sequencer :=
  { s with
    store := ⟨(overwrite s.store.code 0 code).set code.length terminator, s.store.capacity - code.length⟩
    appendCursor := 0
    position := ⟨0, 0⟩ }

/-- A program that is loaded stands at the front of the buffer, and is ended. -/
theorem code_replaced (s : Sequencer) (p : List Instruction) :
    (s.replaced (Program.encode p)).store.code
      = Program.encode p ++ (s.store.code.drop (Program.size p)).set 0 terminator := by
  show (overwrite s.store.code 0 (Program.encode p)).set (Program.encode p).length terminator = _
  rw [overwrite_zero, Program.length_encode, set_layout]

/-- The rules: what an event can come to, and when. -/
inductive Transition (s : Sequencer) : Event → Outcome → Prop where
  -- outside command entry
  | unknownCommand {b : UInt8} {payload : Payload} (mode : s.mode ≠ .commandEntry)
      (byte : Command.ofByte? b = none) :
      Transition s (.command b payload) (s.refuse (.unknownCommand b))
  | clear {b : UInt8} {payload : Payload} (mode : s.mode ≠ .commandEntry)
      (byte : Command.ofByte? b = some .clear) :
      Transition s (.command b payload) ⟨s.clear.1, .done, #[.clear]⟩
  | runOn {b : UInt8} {payload : Payload} (mode : s.mode = .running)
      (byte : Command.ofByte? b = some .run) :
      Transition s (.command b payload) ⟨s, .done, #[]⟩
  | nothingToRun {b : UInt8} {payload : Payload} (mode : s.mode = .paused)
      (byte : Command.ofByte? b = some .run) (empty : s.store.isEmpty = true) :
      Transition s (.command b payload) (s.refuse .nothingToRun)
  | run {b : UInt8} {payload : Payload} (mode : s.mode = .paused)
      (byte : Command.ofByte? b = some .run) (full : ¬ s.store.isEmpty = true) :
      Transition s (.command b payload) ⟨{ s with mode := .running }, .done, #[]⟩
  | pause {b : UInt8} {payload : Payload} (mode : s.mode ≠ .commandEntry)
      (byte : Command.ofByte? b = some .pause) :
      Transition s (.command b payload) ⟨s.pause, .done, #[]⟩
  | enterEdit {b : UInt8} {payload : Payload} (mode : s.mode ≠ .commandEntry)
      (byte : Command.ofByte? b = some .enterEdit) :
      Transition s (.command b payload) ⟨s.enterEdit.1, .done, #[.clear]⟩
  -- in command entry
  | exitEdit {payload : Payload} (mode : s.mode = .commandEntry) :
      Transition s (.command terminator payload) ⟨s.exitEdit, .done, #[]⟩
  | unknownOpcode {b : UInt8} {payload : Payload} (mode : s.mode = .commandEntry)
      (entry : b ≠ terminator) (byte : Opcode.ofByte? b = none) :
      Transition s (.command b payload) (s.refuse (.unknownOpcode b))
  | rejected {b : UInt8} {payload : Payload} {op : Opcode} {why : Refusal}
      (mode : s.mode = .commandEntry) (byte : Opcode.ofByte? b = some op)
      (rejection : rejection? s.rules (.ofPayload op payload) = some why) :
      Transition s (.command b payload) (s.refuse why)
  | noRoom {b : UInt8} {payload : Payload} {op : Opcode} (mode : s.mode = .commandEntry)
      (byte : Opcode.ofByte? b = some op) (allowed : rejection? s.rules (.ofPayload op payload) = none)
      (overflow : s.Overflows (.ofPayload op payload)) :
      Transition s (.command b payload)
        (s.refuse (.noRoom (Instruction.ofPayload op payload).opcode s.store.remaining))
  | append {b : UInt8} {payload : Payload} {op : Opcode} (mode : s.mode = .commandEntry)
      (byte : Opcode.ofByte? b = some op) (allowed : rejection? s.rules (.ofPayload op payload) = none)
      (room : ¬ s.Overflows (.ofPayload op payload)) :
      Transition s (.command b payload) ⟨s.extended (.ofPayload op payload), .done, #[]⟩
  -- ticks
  | tick {t : Player.Tick} (mode : s.mode = .running)
      (ticked : Player.tick s.rules s.store.code s.position = t) :
      Transition s .tick ⟨{ s with position := t.position }, .ticked t.report, t.calls⟩
  | idle (mode : s.mode ≠ .running) : Transition s .tick ⟨s, .ticked {}, #[]⟩
  -- loads
  | busy {code : List UInt8} (mode : s.mode ≠ .paused) :
      Transition s (.load code) (s.refuse (.notPaused s.mode))
  | tooLong {code : List UInt8} (mode : s.mode = .paused) (length : s.store.capacity < code.length) :
      Transition s (.load code) (s.refuse (.tooLong code.length s.store.capacity))
  | corrupt {code : List UInt8} {flaw : Program.Flaw} (mode : s.mode = .paused)
      (length : code.length ≤ s.store.capacity) (flawed : Program.validate code = .error flaw) :
      Transition s (.load code) (s.refuse (.corrupt flaw))
  | load {code : List UInt8} (mode : s.mode = .paused) (length : code.length ≤ s.store.capacity)
      (valid : Program.validate code = .ok ()) :
      Transition s (.load code) ⟨s.replaced code, .done, #[]⟩
  -- starts of playback, in any mode
  | startEmpty (mode : s.mode ≠ .running) (empty : s.store.isEmpty = true) :
      Transition s .start ⟨s, .done, #[.clear]⟩
  | start (full : s.mode = .running ∨ ¬ s.store.isEmpty = true) :
      Transition s .start ⟨{ s with mode := .running }, .done, #[.clear]⟩

/-! ## Every step follows a rule -/

variable (s : Sequencer)

/-- A byte outside command entry. -/
theorem structural_transition (hm : s.mode ≠ .commandEntry) (b : UInt8) (payload : Payload) :
    Transition s (.command b payload) (s.step (.command b payload)) := by
  have hhandle : InPlace.handle b payload ⟨s, #[]⟩ = InPlace.handleStructural b ⟨s, #[]⟩ :=
    InPlace.handle_of_outside hm
  unfold InPlace.handleStructural at hhandle
  cases hc : Command.ofByte? b with
  | none =>
    rw [hc] at hhandle
    rw [step_command_error hhandle]
    exact .unknownCommand hm hc
  | some command =>
    rw [hc] at hhandle
    cases command with
    | clear =>
      rw [step_command_ok hhandle]
      exact .clear hm hc
    | run =>
      by_cases hrun : s.mode = .running
      · rw [step_command_ok (hhandle.trans (InPlace.run_of_running hrun))]
        exact .runOn hrun hc
      · have hpaused : s.mode = .paused := by
          cases hmode : s.mode with
          | paused => rfl
          | running => exact absurd hmode hrun
          | commandEntry => exact absurd hmode hm
        by_cases he : s.store.isEmpty = true
        · rw [step_command_error (hhandle.trans (InPlace.run_of_empty hrun he))]
          exact .nothingToRun hpaused hc he
        · rw [step_command_ok (hhandle.trans (InPlace.run_of_program hrun he))]
          exact .run hpaused hc he
    | pause =>
      rw [step_command_ok hhandle]
      exact .pause hm hc
    | enterEdit =>
      rw [step_command_ok hhandle]
      exact .enterEdit hm hc

/-- An instruction that does not fit is refused. -/
theorem append_of_overflows {s : Sequencer} {i : Instruction} (h : s.Overflows i) :
    InPlace.append i ⟨s, #[]⟩ = .error (.noRoom i.opcode s.store.remaining) ⟨s, #[]⟩ :=
  InPlace.append_of_error (Store.InPlace.place_of_full h)

/-- An instruction that fits is written at the append cursor. -/
theorem append_of_room {s : Sequencer} {i : Instruction} (h : ¬ s.Overflows i) :
    InPlace.append i ⟨s, #[]⟩ = .ok () ⟨s.extended i, #[]⟩ :=
  InPlace.append_of_ok (Store.InPlace.place_of_room h)

theorem handleEntry_of_unknown {w : Work} {b : UInt8} {payload : Payload} (hne : b ≠ terminator)
    (hb : Opcode.ofByte? b = none) : InPlace.handleEntry b payload w = .error (.unknownOpcode b) w := by
  unfold InPlace.handleEntry
  rw [if_neg hne, hb]
  rfl

theorem handleEntry_of_rejection {w : Work} {b : UInt8} {op : Opcode} {payload : Payload} {why : Refusal}
    (hb : Opcode.ofByte? b = some op) (hr : rejection? w.state.rules (.ofPayload op payload) = some why) :
    InPlace.handleEntry b payload w = .error why w := by
  unfold InPlace.handleEntry
  rw [if_neg (Opcode.ne_terminator_of_ofByte? hb), hb]
  refine (get_bind_run w).trans ?_
  rw [hr]
  rfl

theorem handleEntry_of_allowed {w : Work} {b : UInt8} {op : Opcode} {payload : Payload}
    (hb : Opcode.ofByte? b = some op) (hr : rejection? w.state.rules (.ofPayload op payload) = none) :
    InPlace.handleEntry b payload w = InPlace.append (.ofPayload op payload) w := by
  unfold InPlace.handleEntry
  rw [if_neg (Opcode.ne_terminator_of_ofByte? hb), hb]
  refine (get_bind_run w).trans ?_
  rw [hr]

/-- A byte in command entry. -/
theorem entry_transition (hm : s.mode = .commandEntry) (b : UInt8) (payload : Payload) :
    Transition s (.command b payload) (s.step (.command b payload)) := by
  have hhandle : InPlace.handle b payload ⟨s, #[]⟩ = InPlace.handleEntry b payload ⟨s, #[]⟩ :=
    InPlace.handle_of_entry hm
  by_cases hb : b = terminator
  · unfold InPlace.handleEntry at hhandle
    rw [if_pos hb] at hhandle
    rw [step_command_ok hhandle, hb]
    exact .exitEdit hm
  · cases ho : Opcode.ofByte? b with
    | none =>
      rw [step_command_error (hhandle.trans (handleEntry_of_unknown hb ho))]
      exact .unknownOpcode hm hb ho
    | some op =>
      cases hr : rejection? s.rules (Instruction.ofPayload op payload) with
      | some why =>
        rw [step_command_error (hhandle.trans (handleEntry_of_rejection ho hr))]
        exact .rejected hm ho hr
      | none =>
        rw [handleEntry_of_allowed ho hr] at hhandle
        by_cases hroom : s.Overflows (Instruction.ofPayload op payload)
        · rw [step_command_error (hhandle.trans (append_of_overflows hroom))]
          exact .noRoom hm ho hr hroom
        · rw [step_command_ok (hhandle.trans (append_of_room hroom))]
          exact .append hm ho hr hroom

/-- A paused sequencer loads every program that fits. -/
theorem load_of_paused {s : Sequencer} (hm : s.mode = .paused) {code : List UInt8}
    (hle : code.length ≤ s.store.capacity) (hv : Program.validate code = .ok ()) :
    InPlace.load code ⟨s, #[]⟩ = .ok () ⟨s.replaced code, #[]⟩ :=
  InPlace.load_of_ok hm (Store.InPlace.load_of_valid hle hv)

theorem load_eq_replaced {s : Sequencer} (hm : s.mode = .paused) {code : List UInt8}
    (hle : code.length ≤ s.store.capacity) (hv : Program.validate code = .ok ()) :
    s.load code = .ok (s.replaced code) := by
  unfold Sequencer.load
  rw [outcome_of_ok (load_of_paused hm hle hv)]
  rfl

/-- A program to load. -/
theorem load_transition (code : List UInt8) :
    Transition s (.load code) (s.step (.load code)) := by
  by_cases hm : s.mode = .paused
  · by_cases hlen : s.store.capacity < code.length
    · rw [step_load_error (InPlace.load_of_error hm (Store.InPlace.load_of_long hlen))]
      exact .tooLong hm hlen
    · have hle : code.length ≤ s.store.capacity := Nat.le_of_not_lt hlen
      cases hv : Program.validate code with
      | error flaw =>
        rw [step_load_error (InPlace.load_of_error hm (Store.InPlace.load_of_flaw hle hv))]
        exact .corrupt hm hle hv
      | ok _ =>
        rw [step_load_ok (load_of_paused hm hle hv)]
        exact .load hm hle hv
  · rw [step_load_error (InPlace.load_of_busy hm)]
    exact .busy hm

/-- No load makes a call on the strip. -/
theorem calls_load (code : List UInt8) : (s.step (.load code)).calls = #[] := by
  have hrule := load_transition s code
  generalize s.step (.load code) = o at hrule
  cases hrule with
  | busy | tooLong | corrupt | load => rfl

/-- What a load comes to is what its step leaves. -/
theorem step_of_load {s s' : Sequencer} {code : List UInt8} (h : s.load code = .ok s') :
    s.step (.load code) = ⟨s', .done, #[]⟩ := by
  have hcalls := calls_load s code
  cases hrun : InPlace.load code ⟨s, #[]⟩ with
  | ok _ w =>
    rw [step_load_ok hrun] at hcalls ⊢
    rw [Sequencer.load, outcome_of_ok hrun] at h
    cases h
    rw [← hcalls]
  | error why w =>
    rw [Sequencer.load, outcome_of_error hrun] at h
    cases h

/-- A start of playback. -/
theorem start_transition : Transition s .start (s.step .start) := by
  by_cases hrun : s.mode = .running
  · -- playback goes on already: setting the mode again changes nothing
    have hset : { s with mode := .running } = s := by rw [← hrun]
    have hrule : Transition s .start ⟨{ s with mode := .running }, .done, #[.clear]⟩ := .start (.inl hrun)
    rw [hset] at hrule
    rw [step_start_ok (InPlace.run_of_running hrun)]
    exact hrule
  · by_cases he : s.store.isEmpty = true
    · rw [step_start_error (InPlace.run_of_empty hrun he)]
      exact .startEmpty hrun he
    · rw [step_start_ok (InPlace.run_of_program hrun he)]
      exact .start (.inr he)

/-- **Every step follows a rule.** -/
theorem step_transition (e : Event) : Transition s e (s.step e) := by
  cases e with
  | command b payload =>
    by_cases hm : s.mode = .commandEntry
    · exact entry_transition s hm b payload
    · exact structural_transition s hm b payload
  | tick =>
    by_cases hm : s.mode = .running
    · rw [step_tick_running hm]
      exact .tick hm rfl
    · rw [step_tick_idle hm]
      exact .idle hm
  | load code => exact load_transition s code
  | start => exact start_transition s

/-! ## A rule that applies is what happens -/

/-- **The rules do not overlap.** When a rule applies, the step comes to what the rule says. -/
theorem Transition.step_eq {s : Sequencer} {e : Event} {o : Outcome} (h : Transition s e o) :
    s.step e = o := by
  have houtside : s.mode ≠ .commandEntry → ∀ b payload,
      InPlace.handle b payload ⟨s, #[]⟩ = InPlace.handleStructural b ⟨s, #[]⟩ :=
    fun hm _ _ => InPlace.handle_of_outside hm
  have hentry : s.mode = .commandEntry → ∀ b payload,
      InPlace.handle b payload ⟨s, #[]⟩ = InPlace.handleEntry b payload ⟨s, #[]⟩ :=
    fun hm _ _ => InPlace.handle_of_entry hm
  cases h with
  | unknownCommand hm hb => exact step_command_error (by rw [houtside hm, InPlace.handleStructural, hb]; rfl)
  | clear hm hb => exact step_command_ok (by rw [houtside hm, InPlace.handleStructural, hb]; rfl)
  | runOn hm hb =>
    refine step_command_ok ?_
    rw [houtside (by rw [hm]; decide), InPlace.handleStructural, hb]
    exact InPlace.run_of_running hm
  | nothingToRun hm hb he =>
    refine step_command_error (w := ⟨s, #[]⟩) ?_
    rw [houtside (by rw [hm]; decide), InPlace.handleStructural, hb]
    exact InPlace.run_of_empty (by rw [hm]; decide) he
  | run hm hb he =>
    refine step_command_ok ?_
    rw [houtside (by rw [hm]; decide), InPlace.handleStructural, hb]
    exact InPlace.run_of_program (by rw [hm]; decide) he
  | pause hm hb => exact step_command_ok (by rw [houtside hm, InPlace.handleStructural, hb]; rfl)
  | enterEdit hm hb => exact step_command_ok (by rw [houtside hm, InPlace.handleStructural, hb]; rfl)
  | exitEdit hm => exact step_command_ok (by rw [hentry hm, InPlace.handleEntry, if_pos rfl]; rfl)
  | unknownOpcode hm hne hb => exact step_command_error ((hentry hm _ _).trans (handleEntry_of_unknown hne hb))
  | rejected hm hb hr => exact step_command_error ((hentry hm _ _).trans (handleEntry_of_rejection hb hr))
  | noRoom hm hb hr hover =>
    refine step_command_error (w := ⟨s, #[]⟩) ?_
    rw [hentry hm, handleEntry_of_allowed hb hr, append_of_overflows hover]
  | append hm hb hr hroom =>
    refine step_command_ok ?_
    rw [hentry hm, handleEntry_of_allowed hb hr, append_of_room hroom]
  | tick hm ht => rw [step_tick_running hm, ht]
  | idle hm => exact step_tick_idle hm
  | busy hm => exact step_load_error (InPlace.load_of_busy hm)
  | tooLong hm hlen => exact step_load_error (InPlace.load_of_error hm (Store.InPlace.load_of_long hlen))
  | corrupt hm hlen hv => exact step_load_error (InPlace.load_of_error hm (Store.InPlace.load_of_flaw hlen hv))
  | load hm hlen hv => exact step_load_ok (load_of_paused hm hlen hv)
  | startEmpty hm he => exact step_start_error (InPlace.run_of_empty hm he)
  | start hfull =>
    by_cases hrun : s.mode = .running
    · have hset : { s with mode := .running } = s := by rw [← hrun]
      rw [step_start_ok (InPlace.run_of_running hrun), hset]
    · have he : ¬ s.store.isEmpty = true := hfull.resolve_left hrun
      exact step_start_ok (InPlace.run_of_program hrun he)

/-! ## What no step changes -/

/-- **The setup is kept.** No rule changes the rules of playback or the size of the buffer. -/
theorem Transition.setup_kept {s : Sequencer} {e : Event} {o : Outcome} (h : Transition s e o) :
    o.state.rules = s.rules ∧ o.state.store.capacity = s.store.capacity := by
  cases h with
  | clear => exact ⟨rfl, List.length_set⟩
  | exitEdit => exact ⟨rfl, (Store.terminate_frame _ _).1⟩
  | @append _ payload op _ _ _ hroom =>
    refine ⟨rfl, length_overwrite ?_⟩
    rw [Instruction.length_encode]
    exact Nat.le_of_not_lt fun hlt => hroom (.inr hlt)
  | load _ hlen =>
    refine ⟨rfl, ?_⟩
    show List.length (List.set _ _ _) = _
    rw [List.length_set, length_overwrite (by rwa [Nat.zero_add])]
    rfl
  | unknownCommand | runOn | nothingToRun | run | pause | enterEdit | unknownOpcode | rejected | noRoom
  | tick | idle | busy | tooLong | corrupt | startEmpty | start => exact ⟨rfl, rfl⟩

theorem after_setup_kept (s : Sequencer) (events : List Event) :
    (s.after events).rules = s.rules ∧ (s.after events).store.capacity = s.store.capacity := by
  induction events generalizing s with
  | nil => exact ⟨rfl, rfl⟩
  | cons e events ih =>
    obtain ⟨hrules, hcapacity⟩ := (step_transition s e).setup_kept
    obtain ⟨hrules', hcapacity'⟩ := ih (s.step e).state
    exact ⟨hrules'.trans hrules, hcapacity'.trans hcapacity⟩

/-! ## All runs -/

/-- The states that runs of new sequencers reach, orderly or not. -/
def Reachable (s : Sequencer) : Prop := ∃ setup first events, new setup = .ok first ∧ first.after events = s

theorem Reachable.of_run {setup : Setup} {first : Sequencer} (h : new setup = .ok first)
    (events : List Event) : Reachable (first.after events) :=
  ⟨setup, first, events, h, rfl⟩

/-- What a new sequencer has and every rule keeps, every reachable state has. -/
theorem Reachable.induction {P : Sequencer → Prop} {s : Sequencer} (h : Reachable s)
    (hnew : ∀ {setup first}, new setup = .ok first → P first)
    (hstep : ∀ {t e o}, P t → Transition t e o → P o.state) : P s := by
  obtain ⟨setup, first, events, hfirst, rfl⟩ := h
  have hrun : ∀ (events : List Event) (t : Sequencer), P t → P (t.after events) := by
    intro events
    induction events with
    | nil => exact fun t ht => ht
    | cons e events ih => exact fun t ht => ih _ (hstep ht (step_transition t e))
  exact hrun events first (hnew hfirst)

end Sequencer

end StripSequencer
