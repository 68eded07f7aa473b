import StripSequencer.Proofs.Layout
import StripSequencer.Proofs.Refinement
import StripSequencer.Proofs.Transition

/-!
# `StripSequencer.Proofs.ProgramFrame` — which events change the program

The end of the program is a cursor in command entry and found by reading in the other modes, so every
change of mode has to make the two agree. `Sequencer.Holds` is what holds in every reachable state, also
after playback was started out of command entry: the buffer starts with the code of the program. Only
accepted clears, appends and loads are meant to change the program, and besides them only one event does:
a start of playback out of command entry, which writes no terminator and so adds to the program what
earlier programs left behind the append cursor.

## Contents
- `Sequencer.Holds`, with one lemma for each way to change the state.
- `Edited`, `Holds.program_cases`, `Reachable.exists_program`: one step, all runs.
- `Sequencer.Rewrites`, `Sequencer.Uncovers`: the events that are meant to change the program, and the one
  that is not.
- `program_unchanged_iff`: all other events leave the program as it is.
-/

namespace StripSequencer

open Program

namespace Sequencer

/-- The program of the state is `p`. In command entry it ends at the append cursor; in the other modes
nothing that follows it can be read. A buffer without an instruction starts with the terminator. -/
structure Holds (s : Sequencer) (p : List Instruction) : Prop where
  layout : ∃ rest, s.store.code = encode p ++ rest
    ∧ (s.mode ≠ .commandEntry → Instruction.read? rest = none) ∧ (p = [] → Ended rest)
  aligned : s.mode = .commandEntry → s.appendCursor = size p

namespace Holds

variable {s t : Sequencer} {p : List Instruction}

/-! ## What can be seen -/

theorem programEnd_eq (h : s.Holds p) : s.programEnd = size p := by
  obtain ⟨rest, hcode, hread, _⟩ := h.layout
  unfold programEnd
  by_cases hm : s.mode = .commandEntry
  · rw [if_pos hm, h.aligned hm]
  · rw [if_neg hm, Store.extent_layout hcode (hread hm)]

theorem program_eq (h : s.Holds p) : s.program = encode p := by
  obtain ⟨rest, hcode, _⟩ := h.layout
  unfold program
  rw [h.programEnd_eq]
  exact Store.leading_layout hcode

/-- The store counts as empty exactly if the program is, in every mode. -/
theorem isEmpty_iff (h : s.Holds p) : s.store.isEmpty = true ↔ p = [] := by
  obtain ⟨rest, hcode, _, hended⟩ := h.layout
  exact Store.isEmpty_layout hcode hended

theorem size_le_capacity (h : s.Holds p) : size p ≤ s.store.capacity := by
  obtain ⟨rest, hcode, _⟩ := h.layout
  have hlength := Store.capacity_layout hcode
  omega

/-! ## Changes of the state -/

/-- A program that is ended in the buffer. -/
theorem of_ended {rest : List UInt8} (hm : s.mode ≠ .commandEntry)
    (hcode : s.store.code = encode p ++ rest) (hended : Ended rest) : s.Holds p where
  layout := ⟨rest, hcode, fun _ => hended.read?_eq_none, fun _ => hended⟩
  aligned := fun hentry => absurd hentry hm

/-- Outside command entry only the buffer counts. -/
theorem outside (h : s.Holds p) (hs : s.mode ≠ .commandEntry) (ht : t.mode ≠ .commandEntry)
    (hstore : t.store = s.store) : t.Holds p where
  layout := by
    obtain ⟨rest, hcode, hread, hended⟩ := h.layout
    exact ⟨rest, hstore ▸ hcode, fun _ => hread hs, hended⟩
  aligned := fun hentry => absurd hentry ht

theorem enterEdit (h : s.Holds p) (hm : s.mode ≠ .commandEntry) : s.enterEdit.1.Holds p where
  layout := by
    obtain ⟨rest, hcode, _, hended⟩ := h.layout
    exact ⟨rest, hcode, fun hne => absurd rfl hne, hended⟩
  aligned := fun _ => by
    obtain ⟨rest, hcode, hread, _⟩ := h.layout
    exact Store.extent_layout hcode (hread hm)

theorem exitEdit (h : s.Holds p) (hm : s.mode = .commandEntry) : s.exitEdit.Holds p := by
  obtain ⟨rest, hcode, _⟩ := h.layout
  obtain ⟨rest', hcode', hended⟩ := Store.terminate_layout hcode
  rw [← h.aligned hm] at hcode'
  exact of_ended nofun hcode' hended

theorem extended (h : s.Holds p) (hm : s.mode = .commandEntry) {i : Instruction}
    (hroom : ¬ s.Overflows i) : (s.extended i).Holds (p ++ [i]) where
  layout := by
    obtain ⟨rest, hcode, _⟩ := h.layout
    have hplace : Store.InPlace.place s.appendCursor i s.store = .ok () (s.extended i).store :=
      Store.InPlace.place_of_room hroom
    rw [h.aligned hm] at hplace
    exact ⟨rest.drop i.size, (Store.place_layout hcode hplace).1, fun hne => absurd hm hne, by simp⟩
  aligned := fun _ => by
    show s.appendCursor + i.size = size (p ++ [i])
    simp [h.aligned hm]

/-- A program that was loaded is held, whatever the buffer was before. -/
theorem replaced (hm : s.mode ≠ .commandEntry) : (s.replaced (encode p)).Holds p :=
  of_ended hm (s.code_replaced p) (ended_set_terminator _)

theorem clear : s.clear.1.Holds [] := by
  have hcode : s.clear.1.store.code = encode [] ++ s.store.code.set 0 terminator := rfl
  exact of_ended nofun hcode (ended_set_terminator _)

end Holds

/-! ## Stale instructions -/

/-- The instructions that an event lays open: on a start of playback out of command entry, those that
earlier programs left behind the append cursor. -/
def uncovered (s : Sequencer) : Event → List Instruction
  | .start => if s.mode = .commandEntry then decode (s.store.code.drop s.appendCursor) else []
  | .command .. | .tick | .load _ => []

namespace Holds

variable {s : Sequencer} {p : List Instruction}

/-- In command entry, what stands behind the append cursor is what follows the program. -/
theorem drop_appendCursor (h : s.Holds p) (hm : s.mode = .commandEntry) :
    s.store.code = encode p ++ s.store.code.drop s.appendCursor := by
  obtain ⟨rest, hcode, _⟩ := h.layout
  have hdrop : (encode p ++ rest).drop (size p) = rest := List.drop_left
  rw [h.aligned hm, hcode, hdrop]

/-- No terminator is written on a start out of command entry, so reading goes on behind the cursor. -/
theorem start (h : s.Holds p) : { s with mode := .running }.Holds (p ++ s.uncovered .start) := by
  by_cases hm : s.mode = .commandEntry
  · have hcode := h.drop_appendCursor hm
    have huncovered : s.uncovered .start = decode (s.store.code.drop s.appendCursor) := if_pos hm
    obtain ⟨q, rest, hstale, hread⟩ := exists_layout (s.store.code.drop s.appendCursor)
    rw [huncovered, hstale, decode_layout hread]
    refine ⟨⟨rest, ?_, fun _ => hread, ?_⟩, nofun⟩
    · rw [hstale, ← List.append_assoc, ← encode_append] at hcode
      exact hcode
    · -- a buffer without an instruction is ended, so there is nothing to lay open
      intro hnil
      obtain ⟨rfl, rfl⟩ := List.append_eq_nil_iff.mp hnil
      obtain ⟨rest', hcode', _, hended⟩ := h.layout
      have hrest : rest' = rest := by
        rw [← List.nil_append rest', ← encode_nil, ← hcode', hcode, hstale]
        rfl
      exact hrest ▸ hended rfl
  · have huncovered : s.uncovered .start = [] := if_neg hm
    rw [huncovered, List.append_nil]
    exact h.outside hm nofun rfl

/-- Nothing can be read behind an empty program. -/
theorem uncovered_of_isEmpty (h : s.Holds p) (he : s.store.isEmpty = true) :
    s.uncovered .start = [] := by
  by_cases hm : s.mode = .commandEntry
  · obtain rfl : p = [] := h.isEmpty_iff.mp he
    obtain ⟨rest, hrest, _, hended⟩ := h.layout
    have hdrop : s.store.code.drop s.appendCursor = rest := by
      rw [h.aligned hm, size_nil, hrest]
      rfl
    have huncovered : s.uncovered .start = decode (s.store.code.drop s.appendCursor) := if_pos hm
    rw [huncovered, hdrop, decode_eq_nil_iff]
    exact (hended rfl).read?_eq_none
  · exact if_neg hm

end Holds

/-! ## One event -/

/-- The event is one that edits the program if it is accepted: a clear outside command entry, an
instruction in command entry, or a load. -/
def Event.Edits (mode : Mode) : Event → Prop
  | .command b _ =>
    if mode = .commandEntry then Opcode.ofByte? b ≠ none else Command.ofByte? b = some .clear
  | .load _ => True
  | .tick | .start => False

instance (mode : Mode) (e : Event) : Decidable (e.Edits mode) :=
  match e with
  | .command b _ => inferInstanceAs (Decidable
      (if mode = .commandEntry then Opcode.ofByte? b ≠ none else Command.ofByte? b = some .clear))
  | .load _ => .isTrue trivial
  | .tick | .start => .isFalse id

/-- What an accepted edit makes of the program `p`. -/
inductive Edited (s : Sequencer) (p : List Instruction) : Event → List Instruction → Prop where
  | clear {b : UInt8} {payload : Payload} : Edited s p (.command b payload) []
  | append {b : UInt8} {payload : Payload} {i : Instruction} (allowed : rejection? s.rules i = none) :
      Edited s p (.command b payload) (p ++ [i])
  | load (q : List Instruction) : Edited s p (.load (encode q)) q

/-- **One event.** A program is held after every event: the one from before with the instructions that the
event lays open, or what an accepted edit makes of it. -/
theorem Holds.program_cases {s : Sequencer} {p : List Instruction} {e : Event} {o : Outcome}
    (h : s.Holds p) (ht : Transition s e o) :
    ∃ q, o.state.Holds q
      ∧ (q = p ++ s.uncovered e ∨ (o.answer = .done ∧ e.Edits s.mode) ∧ s.Edited p e q) := by
  -- a rule that keeps the program, for an event that lays nothing open
  have hkept : ∀ {t : Sequencer} {P : Prop}, t.Holds p → s.uncovered e = [] →
      ∃ q, t.Holds q ∧ (q = p ++ s.uncovered e ∨ P ∧ s.Edited p e q) := by
    intro t P ht' hnil
    rw [hnil, List.append_nil]
    exact ⟨p, ht', .inl rfl⟩
  cases ht with
  | unknownCommand => exact hkept h rfl
  | clear hm hb => exact ⟨[], Holds.clear, .inr ⟨⟨rfl, (if_neg hm).mpr hb⟩, .clear⟩⟩
  | runOn => exact hkept h rfl
  | nothingToRun => exact hkept h rfl
  | run hm => exact hkept (h.outside (by rw [hm]; decide) nofun rfl) rfl
  | pause hm => exact hkept (h.outside hm nofun rfl) rfl
  | enterEdit hm => exact hkept (h.enterEdit hm) rfl
  | exitEdit hm => exact hkept (h.exitEdit hm) rfl
  | unknownOpcode => exact hkept h rfl
  | rejected => exact hkept h rfl
  | noRoom => exact hkept h rfl
  | append hm hb hallowed hroom =>
    exact ⟨_, h.extended hm hroom, .inr ⟨⟨rfl, (if_pos hm).mpr (by simp [hb])⟩, .append hallowed⟩⟩
  | tick hm => exact hkept (h.outside (by rw [hm]; decide) (by rw [hm]; decide) rfl) rfl
  | idle => exact hkept h rfl
  | busy => exact hkept h rfl
  | tooLong => exact hkept h rfl
  | corrupt => exact hkept h rfl
  | load hm _ hv =>
    obtain ⟨q, rfl⟩ := exists_encode_of_validate hv
    exact ⟨q, Holds.replaced (by rw [hm]; decide), .inr ⟨⟨rfl, trivial⟩, .load q⟩⟩
  | startEmpty _ he => exact hkept h (h.uncovered_of_isEmpty he)
  | start => exact ⟨_, h.start, .inl rfl⟩

/-- Unless the event is an accepted edit, the program is the one from before with the instructions that the
event lays open. -/
theorem Holds.transition {s : Sequencer} {p : List Instruction} {e : Event} {o : Outcome} (h : s.Holds p)
    (ht : Transition s e o) :
    ∃ q, o.state.Holds q ∧ (¬ (o.answer = .done ∧ e.Edits s.mode) → q = p ++ s.uncovered e) := by
  obtain ⟨q, hq, hkept | ⟨hedit, _⟩⟩ := h.program_cases ht
  · exact ⟨q, hq, fun _ => hkept⟩
  · exact ⟨q, hq, fun hnot => absurd hedit hnot⟩

/-- **All runs.** Every reachable state holds a program. -/
theorem Reachable.exists_program {s : Sequencer} (h : Reachable s) : ∃ p, s.Holds p := by
  refine h.induction (P := fun t => ∃ p, t.Holds p) ?_ ?_
  · intro setup first hnew
    have hblank : setup.blank.Holds [] :=
      Holds.of_ended nofun rfl (ended_replicate setup.capacity.toNat)
    obtain ⟨q, hq, _⟩ := hblank.transition (new_transition hnew)
    exact ⟨q, hq⟩
  · rintro t e o ⟨p, hp⟩ hrule
    obtain ⟨q, hq, _⟩ := hp.transition hrule
    exact ⟨q, hq⟩

/-! ## The events that leave the program as it is -/

/-- An accepted clear, an accepted instruction in command entry, or a successful load. -/
def Rewrites (s : Sequencer) (e : Event) : Prop := (s.step e).answer = .done ∧ e.Edits s.mode

/-- Playback is started out of command entry while a complete instruction of an earlier program stands
behind the append cursor. -/
def Uncovers (s : Sequencer) (e : Event) : Prop :=
  e = .start ∧ s.mode = .commandEntry
    ∧ Instruction.read? (s.store.code.drop s.appendCursor) ≠ none

instance (s : Sequencer) (e : Event) : Decidable (s.Rewrites e) :=
  inferInstanceAs (Decidable ((s.step e).answer = .done ∧ e.Edits s.mode))

instance (s : Sequencer) (e : Event) : Decidable (s.Uncovers e) :=
  inferInstanceAs (Decidable (e = .start ∧ s.mode = .commandEntry
    ∧ Instruction.read? (s.store.code.drop s.appendCursor) ≠ none))

theorem uncovered_eq_nil_iff (s : Sequencer) (e : Event) : s.uncovered e = [] ↔ ¬ s.Uncovers e := by
  unfold Uncovers
  cases e with
  | start =>
    by_cases hm : s.mode = .commandEntry
    · simp [uncovered, hm, decode_eq_nil_iff]
    · simp [uncovered, hm]
  | command | tick | load => simp [uncovered]

end Sequencer

/-- **Only edits change the program, with one exception.** In every reachable state, an event that is no
accepted edit leaves the program as it is, except for a start of playback out of command entry over a
stale instruction, which always changes it. -/
theorem program_unchanged_iff {s : Sequencer} (hs : s.Reachable) {e : Sequencer.Event}
    (he : ¬ s.Rewrites e) : (s.step e).state.program = s.program ↔ ¬ s.Uncovers e := by
  obtain ⟨p, hp⟩ := hs.exists_program
  obtain ⟨q, hq, hkept⟩ := hp.transition (s.step_transition e)
  rw [hq.program_eq, hp.program_eq, hkept he, encode_append, ← s.uncovered_eq_nil_iff e]
  constructor
  · intro heq
    have hnil : encode (s.uncovered e) = encode [] := List.append_right_eq_self.mp heq
    exact encode_injective hnil
  · intro hnil
    rw [hnil, encode_nil, List.append_nil]

/-- After playback was started out of command entry over stale bytes, opening command entry again leaves
the program as it is. -/
theorem program_unchanged_after_stray_start :
    ∃ first, Sequencer.new { leds := 3, capacity := 5, code := encode [.clear, .delay 1] } = .ok first
      ∧ ¬ (first.after [.command 1 {}, .command 4 {}, .command 1 {}, .start]).Rewrites (.command 4 {})
      ∧ ¬ (first.after [.command 1 {}, .command 4 {}, .command 1 {}, .start]).Uncovers (.command 4 {})
      ∧ ((first.after [.command 1 {}, .command 4 {}, .command 1 {}, .start]).step
            (.command 4 {})).state.program
        = (first.after [.command 1 {}, .command 4 {}, .command 1 {}, .start]).program := by
  have hnew := @new_encode { leds := 3, capacity := 5, code := encode [.clear, .delay 1] }
    [.clear, .delay 1] rfl (by decide)
  refine ⟨_, hnew, by decide, by decide, ?_⟩
  exact (program_unchanged_iff (Sequencer.Reachable.of_run hnew _) (by decide)).mpr (by decide)

/-- A program is cleared, one instruction is entered over its bytes, and playback is started without
leaving command entry: the old instructions behind the new one are part of the program. -/
theorem start_uncovers_cleared_program :
    ∃ first, Sequencer.new { leds := 3, capacity := 5, code := encode [.clear, .clear, .clear] }
          = .ok first
      ∧ ¬ (first.after [.command 1 {}, .command 4 {}, .command 1 {}]).Rewrites .start
      ∧ (first.after [.command 1 {}, .command 4 {}, .command 1 {}]).program = [1]
      ∧ ((first.after [.command 1 {}, .command 4 {}, .command 1 {}]).step .start).state.program
        = [1, 1, 1] := by
  refine ⟨_, new_encode (p := [.clear, .clear, .clear]) rfl (by decide), ?_, ?_, ?_⟩ <;> decide

end StripSequencer
