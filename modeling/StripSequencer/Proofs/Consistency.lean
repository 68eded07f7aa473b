import StripSequencer.Proofs.Refinement

/-!
# `StripSequencer.Proofs.Consistency` — the books of a sequencer always balance

The length of the program, the bytes that remain, the terminator and the two cursors are kept apart from
each other and changed by different operations. `Sequencer.Consistent` says how they belong together, in
terms of what can be seen of a sequencer; it holds after every orderly run of every new sequencer.
-/

namespace StripSequencer

open Program

/-- What can be seen of a sequencer fits together. -/
structure Sequencer.Consistent (s : Sequencer) : Prop where
  remaining_eq : (s.snapshot.remaining : Int) = s.snapshot.capacity - s.snapshot.length
  remaining_le : s.snapshot.remaining ≤ s.snapshot.capacity
  /-- The buffer starts with complete instructions up to the length of the program. -/
  valid : validate (s.store.leading s.snapshot.length) = .ok ()
  ended : s.snapshot.mode ≠ .commandEntry → s.snapshot.length < s.snapshot.capacity →
    s.store.code[s.snapshot.length]? = some terminator
  /-- Playback stands at an instruction of the program or at its end. -/
  playCursor : (∃ i, (s.snapshot.playCursor, i) ∈ (scan s.program).steps)
    ∨ s.snapshot.playCursor = s.snapshot.length
  appendCursor : s.snapshot.mode = .commandEntry → s.snapshot.appendCursor = s.snapshot.length
  playable : s.snapshot.mode = .running → s.program ≠ []
  idle : s.snapshot.delay ≠ 0 → s.snapshot.mode = .running

namespace Realizes

variable {s : Sequencer} {a : Ideal}

/-- The first byte after the program is the terminator, if there is such a byte. -/
theorem terminator_at_size (h : Realizes s a) (hm : a.mode ≠ .commandEntry)
    (hlt : size a.program < a.capacity) : s.store.code[size a.program]? = some terminator := by
  obtain ⟨rest, hcode, hended⟩ := h.layout_ended hm
  have hlength := Store.capacity_layout hcode
  rw [h.capacity] at hlength
  have hle : (encode a.program).length ≤ size a.program := Nat.le_refl _
  rw [hcode, List.getElem?_append_right hle, length_encode, Nat.sub_self]
  cases rest with
  | nil => simp at hlength; omega
  | cons b rest => rw [List.getElem?_cons_zero, hended b rfl]

/-- The offset of an index is the offset of an instruction that is found in the code, or the end. -/
theorem mem_steps_or_end (a : Ideal) :
    (∃ i, (offset a.program a.next, i) ∈ (scan (encode a.program)).steps)
      ∨ offset a.program a.next = size a.program := by
  rcases Nat.lt_or_eq_of_le a.next_le with hlt | heq
  · left
    rw [scan_encode]
    exact ⟨a.program[a.next], mem_located (List.getElem?_eq_getElem hlt)⟩
  · right
    rw [heq, offset_length]

/-- A state that realizes an ideal one is consistent. -/
theorem consistent (h : Realizes s a) : s.Consistent := by
  have hfits := a.fits
  obtain ⟨rest, hcode, _⟩ := h.layout
  constructor <;> rw [h.snapshot_eq]
  · show ((a.capacity - size a.program : Nat) : Int) = (a.capacity : Int) - (size a.program : Int)
    omega
  · exact Nat.sub_le _ _
  · rw [Store.leading_layout hcode]
    exact validate_encode a.program
  · exact h.terminator_at_size
  · rw [h.program_eq]
    exact mem_steps_or_end a
  · exact a.aligned
  · intro hrunning hempty
    rw [h.program_eq] at hempty
    exact a.playable hrunning (size_eq_zero_iff.mp (congrArg List.length hempty))
  · exact a.idle

end Realizes

/-- **The books balance after every orderly run.** The setup may ask for any capacity, step bound, policy
and strip; the events may be any commands, ticks, loads and starts, except a start in command entry. -/
theorem consistent_after_orderly_run {setup : Sequencer.Setup} {first : Sequencer}
    (hnew : Sequencer.new setup = .ok first) {events : List Sequencer.Event}
    (ho : first.Orderly events) : (first.after events).Consistent :=
  (realizes_after (realizes_new hnew) ho).consistent

/-- A delay is played, then an edit session over the bytes of a longer program fills the buffer to the
last byte. -/
theorem consistent_after_filling_session :
    ∃ first, Sequencer.new
          { leds := 3, capacity := 6, maxSteps := 2, policy := .reject,
            code := encode [.all 1 2 3, .delay 9] } = .ok first
      ∧ first.Orderly [.start, .tick, .command 1 {}, .load [1], .command 4 {}, .command 2 ⟨2, 7, 7, 7⟩,
          .command 3 {}, .command 0 {}]
      ∧ (first.after [.start, .tick, .command 1 {}, .load [1], .command 4 {}, .command 2 ⟨2, 7, 7, 7⟩,
          .command 3 {}, .command 0 {}]).Consistent := by
  refine ⟨_, new_encode rfl (by decide), by decide, ?_⟩
  exact consistent_after_orderly_run (new_encode rfl (by decide)) (by decide)

end StripSequencer
