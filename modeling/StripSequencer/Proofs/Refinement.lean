import StripSequencer.Proofs.Ideal
import StripSequencer.Proofs.Transition

/-!
# `StripSequencer.Proofs.Refinement` — the sequencer does what the ideal one does

`Realizes s a` says that the buffer and the cursors of `s` stand for the ideal state `a`. A new sequencer
realizes an ideal one, and `step_matches` carries the relation over every event that keeps to the order
of use: the answers and the calls are the same, and the states stay related. Everything that holds of
ideal sequencers therefore holds of the states that are reached.

## Contents
- `Realizes`, with one lemma for each operation.
- `step_matches`, `realizes_after`, `realizes_new`: one step, a run, a new sequencer.
- `Reached.exists_ideal`: every reached state realizes an ideal one.
- `Realizes.program_eq`, `Realizes.snapshot_eq`, `Realizes.unique`: what can be seen is the ideal state's.
-/

namespace StripSequencer

open Program

/-- The state of a sequencer stands for an ideal one. Outside command entry the program is ended in the
buffer; in command entry anything may follow it. -/
structure Realizes (s : Sequencer) (a : Ideal) : Prop where
  rules : s.rules = a.rules
  mode : s.mode = a.mode
  appendCursor : s.appendCursor = a.appendCursor
  position : s.position = ⟨offset a.program a.next, a.delay⟩
  capacity : s.store.capacity = a.capacity
  remaining : s.store.remaining = a.free
  layout : ∃ rest, s.store.code = encode a.program ++ rest ∧ (a.mode ≠ .commandEntry → Ended rest)

/-- The outcome of a sequencer is that of an ideal one. -/
structure Matches (o : Sequencer.Outcome) (b : Ideal.Outcome) : Prop where
  state : Realizes o.state b.state
  answer : o.answer = b.answer
  calls : o.calls = b.calls

namespace Realizes

variable {s t : Sequencer} {a b : Ideal}

/-! ## What can be seen -/

/-- Outside command entry, where an instruction may be read nothing stale is. -/
theorem layout_ended (h : Realizes s a) (hm : a.mode ≠ .commandEntry) :
    ∃ rest, s.store.code = encode a.program ++ rest ∧ Ended rest := by
  obtain ⟨rest, hcode, hended⟩ := h.layout
  exact ⟨rest, hcode, hended hm⟩

theorem extent_eq (h : Realizes s a) (hm : a.mode ≠ .commandEntry) :
    s.store.extent = size a.program := by
  obtain ⟨rest, hcode, hended⟩ := h.layout_ended hm
  exact Store.extent_layout hcode hended.read?_eq_none

/-- The end of the program is the append cursor in one mode and found by reading in the others; it is the
size of the list in all of them. -/
theorem programEnd_eq (h : Realizes s a) : s.programEnd = size a.program := by
  unfold Sequencer.programEnd
  by_cases hm : s.mode = .commandEntry
  · rw [if_pos hm, h.appendCursor, a.aligned (h.mode ▸ hm)]
  · rw [if_neg hm, h.extent_eq (h.mode ▸ hm)]

theorem program_eq (h : Realizes s a) : s.program = encode a.program := by
  obtain ⟨rest, hcode, _⟩ := h.layout
  unfold Sequencer.program
  rw [h.programEnd_eq]
  exact Store.leading_layout hcode

theorem snapshot_eq (h : Realizes s a) :
    s.snapshot = ⟨a.mode, a.capacity, a.free, size a.program, a.appendCursor,
      offset a.program a.next, a.delay⟩ := by
  unfold Sequencer.snapshot
  rw [h.mode, h.capacity, h.remaining, h.programEnd_eq, h.appendCursor, h.position]

/-- An ideal state is determined by what a sequencer keeps in its fields, except that of the buffer only
the program counts. -/
theorem unique (h : Realizes s a) (h' : Realizes t b) (hrules : s.rules = t.rules)
    (hmode : s.mode = t.mode) (happend : s.appendCursor = t.appendCursor)
    (hposition : s.position = t.position) (hcapacity : s.store.capacity = t.store.capacity)
    (hprogram : s.program = t.program) : a = b := by
  have hp : a.program = b.program := by
    apply encode_injective
    rw [← h.program_eq, ← h'.program_eq, hprogram]
  have hpos : Player.Position.mk (offset a.program a.next) a.delay
      = ⟨offset b.program b.next, b.delay⟩ := by
    rw [← h.position, ← h'.position, hposition]
  injection hpos with hcursor hdelay
  ext1
  · rw [← h.rules, ← h'.rules, hrules]
  · rw [← h.capacity, ← h'.capacity, hcapacity]
  · exact hp
  · rw [← h.mode, ← h'.mode, hmode]
  · rw [← h.appendCursor, ← h'.appendCursor, happend]
  · -- different instructions lie at different offsets, so the cursor tells the index
    have hle := a.next_le
    rw [hp] at hcursor hle
    exact offset_injective hle b.next_le hcursor
  · exact hdelay

/-! ## Structural commands -/

/-- A program from the first byte on, with the terminator behind it if there is room. -/
theorem install (h : Realizes s a) {p : List Instruction} (hp : size p ≤ a.capacity) {store : Store}
    (hcapacity : store.capacity = a.capacity) (hremaining : store.remaining = a.capacity - size p)
    (hcode : ∃ rest, store.code = encode p ++ rest ∧ Ended rest) :
    Realizes { s with store, mode := .paused, appendCursor := 0, position := ⟨0, 0⟩ }
      (a.install p hp) where
  rules := h.rules
  mode := rfl
  appendCursor := rfl
  position := by simp [Ideal.install, Ideal.standing]
  capacity := hcapacity
  remaining := hremaining
  layout := by
    obtain ⟨rest, hrest, hended⟩ := hcode
    exact ⟨rest, hrest, fun _ => hended⟩

theorem clear (h : Realizes s a) : Realizes s.clear.1 a.clear := by
  have hcapacity : s.store.reset.capacity = a.capacity := by
    rw [← h.capacity]
    exact List.length_set
  refine h.install (Nat.zero_le _) hcapacity h.capacity ⟨s.store.code.set 0 terminator, rfl, ?_⟩
  exact ended_set_terminator _

theorem pause (h : Realizes s a) (hm : a.mode ≠ .commandEntry) : Realizes s.pause a.pause where
  rules := h.rules
  mode := rfl
  appendCursor := h.appendCursor
  position := by simp [Sequencer.pause, Ideal.pause, h.position]
  capacity := h.capacity
  remaining := h.remaining
  layout := by
    obtain ⟨rest, hcode, hended⟩ := h.layout_ended hm
    exact ⟨rest, hcode, fun _ => hended⟩

theorem play (h : Realizes s a) (hm : a.mode ≠ .commandEntry) (hp : a.program ≠ []) :
    Realizes { s with mode := .running } (a.play hp) where
  rules := h.rules
  mode := rfl
  appendCursor := h.appendCursor
  position := h.position
  capacity := h.capacity
  remaining := h.remaining
  layout := by
    obtain ⟨rest, hcode, hended⟩ := h.layout_ended hm
    exact ⟨rest, hcode, fun _ => hended⟩

theorem enterEdit (h : Realizes s a) (hm : a.mode ≠ .commandEntry) :
    Realizes s.enterEdit.1 a.enterEdit where
  rules := h.rules
  mode := rfl
  appendCursor := h.extent_eq hm
  position := by simp [Sequencer.enterEdit, Ideal.enterEdit, h.position]
  capacity := h.capacity
  remaining := h.remaining
  layout := by
    obtain ⟨rest, hcode, _⟩ := h.layout
    exact ⟨rest, hcode, fun hne => absurd rfl hne⟩

/-- The store counts as empty exactly if the list is. -/
theorem isEmpty_iff (h : Realizes s a) (hm : a.mode ≠ .commandEntry) :
    s.store.isEmpty = true ↔ a.program = [] := by
  obtain ⟨rest, hcode, hended⟩ := h.layout_ended hm
  exact Store.isEmpty_layout hcode fun _ => hended

/-! ## Command entry -/

/-- The terminator goes to the append cursor. -/
theorem terminate_layout (h : Realizes s a) (hm : a.mode = .commandEntry) :
    ∃ rest, ((s.store.terminate s.appendCursor).getD s.store).code = encode a.program ++ rest
      ∧ Ended rest := by
  obtain ⟨rest, hcode, _⟩ := h.layout
  have hcursor : s.appendCursor = size a.program := by rw [h.appendCursor, a.aligned hm]
  rw [hcursor]
  exact Store.terminate_layout hcode

theorem exitEdit (h : Realizes s a) (hm : a.mode = .commandEntry) :
    Realizes s.exitEdit a.exitEdit where
  rules := h.rules
  mode := rfl
  appendCursor := h.appendCursor
  position := by
    have hdelay : a.delay = 0 := a.delay_eq_zero (by rw [hm]; decide)
    simp [Sequencer.exitEdit, Ideal.exitEdit, h.position, hdelay]
  capacity := (Store.terminate_frame _ _).1.trans h.capacity
  remaining := (Store.terminate_frame _ _).2.trans h.remaining
  layout := by
    obtain ⟨rest, hcode, hended⟩ := h.terminate_layout hm
    exact ⟨rest, hcode, fun _ => hended⟩

/-- There is no room for an instruction exactly if the list with it would not fit. -/
theorem overflows_iff (h : Realizes s a) (hm : a.mode = .commandEntry) {i : Instruction} :
    s.Overflows i ↔ ¬ size a.program + i.size ≤ a.capacity := by
  have hfits := a.fits
  unfold Sequencer.Overflows
  rw [h.remaining, Ideal.free, h.capacity, h.appendCursor, a.aligned hm]
  omega

theorem extended (h : Realizes s a) (hm : a.mode = .commandEntry) {i : Instruction}
    (hle : size a.program + i.size ≤ a.capacity) : Realizes (s.extended i) (a.append i hle) := by
  have hroom : ¬ s.Overflows i := fun hover => (h.overflows_iff hm).mp hover hle
  have hplace : Store.InPlace.place s.appendCursor i s.store = .ok () (s.extended i).store :=
    Store.InPlace.place_of_room hroom
  rw [h.appendCursor, a.aligned hm] at hplace
  -- the instruction covers the old terminator and may end among stale bytes, which is why the rest is
  -- not asked to be ended in command entry
  obtain ⟨rest, hcode, _⟩ := h.layout
  obtain ⟨hcode', hcapacity, hremaining⟩ := Store.place_layout hcode hplace
  exact {
    rules := h.rules
    mode := h.mode
    appendCursor := by
      show s.appendCursor + i.size = a.appendCursor + i.size
      rw [h.appendCursor]
    position := by
      show s.position = ⟨offset (a.program ++ [i]) a.next, a.delay⟩
      rw [offset_append a.next_le, h.position]
    capacity := hcapacity.trans h.capacity
    remaining := by
      show (s.extended i).store.remaining = a.capacity - size (a.program ++ [i])
      rw [hremaining, h.remaining, Ideal.free, size_append, size_cons, size_nil]
      omega
    layout := ⟨rest.drop i.size, hcode', fun hne => absurd hm hne⟩ }

/-! ## Loading and playing -/

theorem replaced (h : Realizes s a) (hm : a.mode = .paused) {p : List Instruction}
    (hp : size p ≤ a.capacity) : Realizes (s.replaced (encode p)) (a.install p hp) := by
  have hcode := s.code_replaced p
  have hlength : s.store.code.length = a.capacity := h.capacity
  have hcapacity : (s.replaced (encode p)).store.capacity = a.capacity := by
    rw [Store.capacity, hcode, List.length_append, length_encode, List.length_set, List.length_drop]
    omega
  have hremaining : (s.replaced (encode p)).store.remaining = a.capacity - size p := by
    rw [← h.capacity]
    rfl
  have hreal := h.install hp hcapacity hremaining ⟨_, hcode, ended_set_terminator _⟩
  rw [← h.mode.trans hm] at hreal
  exact hreal

theorem load_of_valid (h : Realizes s a) (hm : a.mode = .paused) {p : List Instruction}
    (hp : size p ≤ a.capacity) :
    ∃ s', s.load (encode p) = .ok s' ∧ Realizes s' (a.install p hp) := by
  have hfits : (encode p).length ≤ s.store.capacity := h.capacity ▸ hp
  exact ⟨_, Sequencer.load_eq_replaced (h.mode.trans hm) hfits (validate_encode p), h.replaced hm hp⟩

theorem tick (h : Realizes s a) (hm : a.mode = .running) :
    s.step .tick = ⟨{ s with position := (a.nextTick.placed a.program).position },
        .ticked a.nextTick.report, a.nextTick.calls⟩
      ∧ Realizes { s with position := (a.nextTick.placed a.program).position } (a.tick hm) := by
  have hended : a.mode ≠ .commandEntry := by rw [hm]; decide
  obtain ⟨rest, hcode, hrest⟩ := h.layout_ended hended
  -- playback reads past the program only far enough to see that it is ended
  have htick : Player.tick s.rules s.store.code s.position = a.nextTick.placed a.program := by
    rw [h.rules, hcode, h.position]
    exact Cycle.tick_layout hrest.read?_eq_none _ _
  constructor
  · rw [Sequencer.step_tick_running (h.mode.trans hm), htick]
    rfl
  · exact {
      rules := h.rules
      mode := h.mode
      appendCursor := h.appendCursor
      position := rfl
      capacity := h.capacity
      remaining := h.remaining
      layout := h.layout }

/-! ## One event -/

theorem refused (h : Realizes s a) (why : Refusal) : Matches (s.refuse why) (a.refuse why) :=
  ⟨h, rfl, rfl⟩

/-- A byte outside command entry. -/
theorem obey_matches (h : Realizes s a) (hm : a.mode ≠ .commandEntry) (x : UInt8) (payload : Payload) :
    Matches (s.step (.command x payload)) (a.obey x) := by
  have hmode : s.mode ≠ .commandEntry := h.mode ▸ hm
  have hrule := s.structural_transition hmode x payload
  generalize s.step (.command x payload) = o at hrule ⊢
  unfold Ideal.obey
  cases hrule with
  | unknownCommand _ hx =>
    rw [hx]
    exact h.refused _
  | clear _ hx =>
    rw [hx]
    exact ⟨h.clear, rfl, rfl⟩
  | runOn hrun hx =>
    rw [hx]
    dsimp only
    rw [if_pos (h.mode ▸ hrun)]
    exact ⟨h, rfl, rfl⟩
  | nothingToRun hpaused hx hempty =>
    have hrun : a.mode ≠ .running := by
      rw [← h.mode, hpaused]
      decide
    rw [hx]
    dsimp only
    rw [if_neg hrun, dif_pos ((h.isEmpty_iff hm).mp hempty)]
    exact h.refused _
  | run hpaused hx hfull =>
    have hrun : a.mode ≠ .running := by
      rw [← h.mode, hpaused]
      decide
    have hp : a.program ≠ [] := fun hp => hfull ((h.isEmpty_iff hm).mpr hp)
    rw [hx]
    dsimp only
    rw [if_neg hrun, dif_neg hp]
    exact ⟨h.play hm hp, rfl, rfl⟩
  | pause _ hx =>
    rw [hx]
    exact ⟨h.pause hm, rfl, rfl⟩
  | enterEdit _ hx =>
    rw [hx]
    exact ⟨h.enterEdit hm, rfl, rfl⟩
  | exitEdit hentry | unknownOpcode hentry | rejected hentry | noRoom hentry | append hentry =>
    exact absurd hentry hmode

/-- A byte in command entry. -/
theorem enter_matches (h : Realizes s a) (hm : a.mode = .commandEntry) (x : UInt8) (payload : Payload) :
    Matches (s.step (.command x payload)) (a.enter x payload) := by
  have hmode : s.mode = .commandEntry := h.mode.trans hm
  have hrule := s.entry_transition hmode x payload
  generalize s.step (.command x payload) = o at hrule ⊢
  unfold Ideal.enter Ideal.offer
  cases hrule with
  | exitEdit =>
    rw [if_pos rfl]
    exact ⟨h.exitEdit hm, rfl, rfl⟩
  | unknownOpcode _ hx hop =>
    rw [if_neg hx, hop]
    exact h.refused _
  | rejected _ hop hrejected =>
    rw [if_neg (Opcode.ne_terminator_of_ofByte? hop), hop, ← h.rules]
    dsimp only
    rw [hrejected]
    exact h.refused _
  | noRoom _ hop hallowed hover =>
    rw [if_neg (Opcode.ne_terminator_of_ofByte? hop), hop, ← h.rules]
    dsimp only
    rw [hallowed]
    dsimp only
    rw [dif_neg ((h.overflows_iff hm).mp hover), ← h.remaining]
    exact h.refused _
  | append _ hop hallowed hroom =>
    have hle := Decidable.not_not.mp (mt (h.overflows_iff hm).mpr hroom)
    rw [if_neg (Opcode.ne_terminator_of_ofByte? hop), hop, ← h.rules]
    dsimp only
    rw [hallowed]
    dsimp only
    rw [dif_pos hle]
    exact ⟨h.extended hm hle, rfl, rfl⟩
  | unknownCommand hout | clear hout | pause hout | enterEdit hout => exact absurd hmode hout
  | runOn hrun => exact absurd (hmode.symm.trans hrun) (by decide)
  | nothingToRun hpaused | run hpaused => exact absurd (hmode.symm.trans hpaused) (by decide)

/-- A program to load. -/
theorem load_matches (h : Realizes s a) (code : List UInt8) :
    Matches (s.step (.load code)) (a.load code) := by
  have hrule := s.load_transition code
  generalize s.step (.load code) = o at hrule ⊢
  unfold Ideal.load
  cases hrule with
  | busy hm =>
    rw [if_neg (h.mode ▸ hm), ← h.mode]
    exact h.refused _
  | tooLong hm hlen =>
    rw [h.capacity] at hlen ⊢
    rw [if_pos (h.mode ▸ hm), dif_neg (Nat.not_le.mpr hlen)]
    exact h.refused _
  | corrupt hm hlen hflaw =>
    rw [h.capacity] at hlen
    rw [if_pos (h.mode ▸ hm), dif_pos hlen, hflaw]
    exact h.refused _
  | load hm hlen hvalid =>
    obtain ⟨p, rfl⟩ := exists_encode_of_validate hvalid
    rw [h.capacity] at hlen
    have hpaused : a.mode = .paused := h.mode ▸ hm
    rw [if_pos hpaused, dif_pos hlen, hvalid]
    dsimp only
    simp only [decode_encode]
    exact ⟨h.replaced hpaused hlen, rfl, rfl⟩

/-- A start of playback outside command entry. -/
theorem start_matches (h : Realizes s a) (hm : a.mode ≠ .commandEntry) :
    Matches (s.step .start) a.start := by
  have hrule := s.start_transition
  generalize s.step .start = o at hrule ⊢
  unfold Ideal.start
  cases hrule with
  | startEmpty _ hempty =>
    rw [dif_pos ((h.isEmpty_iff hm).mp hempty)]
    exact ⟨h, rfl, rfl⟩
  | start hfull =>
    have hp : a.program ≠ [] := by
      intro hp
      rcases hfull with hrun | hfull
      · exact a.playable (h.mode ▸ hrun) hp
      · exact hfull ((h.isEmpty_iff hm).mpr hp)
    rw [dif_neg hp]
    exact ⟨h.play hm hp, rfl, rfl⟩

end Realizes

/-- **One event.** Whatever the event is, if it keeps to the order of use, the sequencer does what the
ideal one does. -/
theorem step_matches {s : Sequencer} {a : Ideal} (h : Realizes s a) {e : Sequencer.Event}
    (he : s.Admits e) : Matches (s.step e) (a.step e) := by
  cases e with
  | command x payload =>
    unfold Ideal.step
    by_cases hm : a.mode = .commandEntry
    · simp only [if_pos hm]
      exact h.enter_matches hm x payload
    · simp only [if_neg hm]
      exact h.obey_matches hm x payload
  | tick =>
    unfold Ideal.step
    by_cases hm : a.mode = .running
    · obtain ⟨hstep, hreal⟩ := h.tick hm
      simp only [dif_pos hm]
      rw [hstep]
      exact ⟨hreal, rfl, rfl⟩
    · simp only [dif_neg hm]
      rw [Sequencer.step_tick_idle (h.mode ▸ hm)]
      exact ⟨h, rfl, rfl⟩
  | load code => exact h.load_matches code
  | start => exact h.start_matches (h.mode ▸ he rfl)

/-- **A run.** -/
theorem realizes_after {s : Sequencer} {a : Ideal} (h : Realizes s a) {events : List Sequencer.Event}
    (ho : s.Orderly events) : Realizes (s.after events) (a.after events) := by
  induction events generalizing s a with
  | nil => exact h
  | cons e events ih => exact ih (step_matches h ho.1).state ho.2

/-! ## New sequencers -/

/-- A sequencer without a program, as a setup asks for it. -/
def Sequencer.Setup.blank (setup : Sequencer.Setup) : Sequencer :=
  ⟨setup.rules, Store.empty setup.capacity, .paused, 0, ⟨0, 0⟩⟩

/-- A new sequencer is one without a program into which the setup's program is loaded. -/
theorem new_eq_load (setup : Sequencer.Setup) :
    Sequencer.new setup = setup.blank.load setup.code := by
  unfold Sequencer.new Sequencer.load Store.load
  cases hload : Store.InPlace.load setup.code (Store.empty setup.capacity) with
  | ok _ store =>
    rw [outcome_of_ok hload, outcome_of_ok (Sequencer.InPlace.load_of_ok rfl hload)]
    rfl
  | error why store =>
    rw [outcome_of_error hload, outcome_of_error (Sequencer.InPlace.load_of_error rfl hload)]
    rfl

/-- A new sequencer follows the rule for loads. -/
theorem new_transition {setup : Sequencer.Setup} {first : Sequencer} (h : Sequencer.new setup = .ok first) :
    setup.blank.Transition (.load setup.code) ⟨first, .done, #[]⟩ := by
  rw [new_eq_load] at h
  rw [← Sequencer.step_of_load h]
  exact setup.blank.load_transition setup.code

/-- A new sequencer with a program that fits: all bytes after the program are terminators. -/
theorem new_encode {setup : Sequencer.Setup} {p : List Instruction} (hcode : setup.code = encode p)
    (hfits : size p ≤ setup.capacity.toNat) :
    Sequencer.new setup = .ok { setup.blank with
      store := ⟨encode p ++ List.replicate (setup.capacity.toNat - size p) terminator,
        setup.capacity.toNat - size p⟩ } := by
  have hcapacity : (Store.empty setup.capacity).capacity = setup.capacity.toNat := List.length_replicate
  have hrest : ((Store.empty setup.capacity).code.drop (size p)).set 0 terminator
      = List.replicate (setup.capacity.toNat - size p) terminator := by
    rw [Store.empty, List.drop_replicate]
    exact (ended_replicate _).set_terminator
  unfold Sequencer.new
  rw [hcode, Store.load_encode (hcapacity.symm ▸ hfits), hcapacity, hrest]
  rfl

theorem realizes_blank (setup : Sequencer.Setup) :
    Realizes setup.blank
      (Ideal.standing setup.rules setup.capacity.toNat [] (Nat.zero_le _)) where
  rules := rfl
  mode := rfl
  appendCursor := rfl
  position := rfl
  capacity := List.length_replicate
  remaining := rfl
  layout := ⟨List.replicate setup.capacity.toNat terminator, rfl, fun _ => ended_replicate _⟩

/-- A new sequencer realizes the ideal one with the setup's program. -/
theorem realizes_new {setup : Sequencer.Setup} {s : Sequencer} (h : Sequencer.new setup = .ok s) :
    Realizes s ((Ideal.standing setup.rules setup.capacity.toNat [] (Nat.zero_le _)).load
      setup.code).state := by
  have hload := (realizes_blank setup).load_matches setup.code
  rw [(new_transition h).step_eq] at hload
  exact hload.state

/-- A run of a new sequencer keeps the setup that it was given. -/
theorem new_setup_kept {setup : Sequencer.Setup} {first : Sequencer} (h : Sequencer.new setup = .ok first)
    (events : List Sequencer.Event) :
    (first.after events).rules = setup.rules
      ∧ (first.after events).store.capacity = setup.capacity.toNat := by
  obtain ⟨hrules, hcapacity⟩ := (new_transition h).setup_kept
  obtain ⟨hrules', hcapacity'⟩ := first.after_setup_kept events
  exact ⟨hrules'.trans hrules, hcapacity'.trans (hcapacity.trans List.length_replicate)⟩

/-- **Every reached state realizes an ideal one.** -/
theorem Sequencer.Reached.exists_ideal {s : Sequencer} (h : Reached s) : ∃ a, Realizes s a := by
  obtain ⟨setup, first, events, hnew, ho, rfl⟩ := h
  exact ⟨_, realizes_after (realizes_new hnew) ho⟩

end StripSequencer
