import StripSequencer.Proofs.EditSession
import StripSequencer.Proofs.Transition

/-!
# `StripSequencer.Proofs.Installation` — three ways to install a program agree

A program can be typed in an edit session after a clear, loaded into a paused sequencer, or given to a new
one. The three write different bytes behind the program and leave different append cursors. Outside
command entry nothing reads either, so no later run can tell the results apart.

## Contents
- `Ideal.Similar`: ideal states up to the append cursor; `Similar.step`: one event keeps them similar.
- `Sequencer.replies`, `Sequencer.Interchangeable`: what later events bring about, and states that cannot be
  told apart by it.
- `exists_entries`, `entries_done`: entries for a program, and a session in which every offer is accepted.
- `installations_interchangeable`: the three ways.
-/

namespace StripSequencer

open Program

namespace Ideal

/-! ## The append cursor -/

/-- Two states agree on everything but the append cursor. In command entry they agree on that as well,
because it is the size of the program there. -/
structure Similar (a b : Ideal) : Prop where
  rules : a.rules = b.rules
  capacity : a.capacity = b.capacity
  program : a.program = b.program
  mode : a.mode = b.mode
  next : a.next = b.next
  delay : a.delay = b.delay

/-- Two outcomes agree on everything but the append cursor. -/
structure Outcome.Similar (o o' : Outcome) : Prop where
  state : o.state.Similar o'.state
  answer : o.answer = o'.answer
  calls : o.calls = o'.calls

namespace Similar

variable {a b : Ideal}

theorem install (h : a.Similar b) {p : List Instruction} (hp : size p ≤ a.capacity)
    (hp' : size p ≤ b.capacity) : (a.install p hp).Similar (b.install p hp') :=
  ⟨h.rules, h.capacity, rfl, rfl, rfl, rfl⟩

theorem pause (h : a.Similar b) : a.pause.Similar b.pause :=
  ⟨h.rules, h.capacity, h.program, rfl, h.next, rfl⟩

theorem play (h : a.Similar b) (hp : a.program ≠ []) (hp' : b.program ≠ []) :
    (a.play hp).Similar (b.play hp') :=
  ⟨h.rules, h.capacity, h.program, rfl, h.next, h.delay⟩

theorem enterEdit (h : a.Similar b) : a.enterEdit.Similar b.enterEdit :=
  ⟨h.rules, h.capacity, h.program, rfl, h.next, rfl⟩

theorem exitEdit (h : a.Similar b) : a.exitEdit.Similar b.exitEdit :=
  ⟨h.rules, h.capacity, h.program, rfl, rfl, rfl⟩

theorem append (h : a.Similar b) {i : Instruction} (hi : size a.program + i.size ≤ a.capacity)
    (hi' : size b.program + i.size ≤ b.capacity) : (a.append i hi).Similar (b.append i hi') :=
  ⟨h.rules, h.capacity, congrArg (· ++ [i]) h.program, h.mode, h.next, h.delay⟩

theorem nextTick (h : a.Similar b) : a.nextTick = b.nextTick := by
  unfold Ideal.nextTick
  rw [h.rules, h.program, h.next, h.delay]

theorem tick (h : a.Similar b) (hm : a.mode = .running) (hm' : b.mode = .running) :
    (a.tick hm).Similar (b.tick hm') :=
  ⟨h.rules, h.capacity, h.program, h.mode, congrArg (·.next) h.nextTick, congrArg (·.delay) h.nextTick⟩

theorem refuse (h : a.Similar b) (why : Refusal) : (a.refuse why).Similar (b.refuse why) :=
  ⟨h, rfl, rfl⟩

theorem obey (h : a.Similar b) (x : UInt8) : (a.obey x).Similar (b.obey x) := by
  unfold Ideal.obey
  cases Command.ofByte? x with
  | none => exact h.refuse _
  | some command =>
    cases command with
    | clear => exact ⟨h.install _ _, rfl, rfl⟩
    | run =>
      dsimp only
      by_cases hrun : a.mode = .running
      · rw [if_pos hrun, if_pos (h.mode ▸ hrun)]
        exact ⟨h, rfl, rfl⟩
      · rw [if_neg hrun, if_neg (h.mode ▸ hrun)]
        by_cases hp : a.program = []
        · rw [dif_pos hp, dif_pos (h.program ▸ hp)]
          exact h.refuse _
        · rw [dif_neg hp, dif_neg (h.program ▸ hp)]
          exact ⟨h.play _ _, rfl, rfl⟩
    | pause => exact ⟨h.pause, rfl, rfl⟩
    | enterEdit => exact ⟨h.enterEdit, rfl, rfl⟩

theorem offer (h : a.Similar b) (i : Instruction) : (a.offer i).Similar (b.offer i) := by
  unfold Ideal.offer
  rw [h.rules]
  cases Sequencer.rejection? b.rules i with
  | some why => exact h.refuse why
  | none =>
    dsimp only
    by_cases hle : size a.program + i.size ≤ a.capacity
    · have hle' : size b.program + i.size ≤ b.capacity := by rwa [← h.program, ← h.capacity]
      rw [dif_pos hle, dif_pos hle']
      exact ⟨h.append hle hle', rfl, rfl⟩
    · have hle' : ¬ size b.program + i.size ≤ b.capacity := by rwa [← h.program, ← h.capacity]
      have hfree : a.free = b.free := by rw [free, free, h.capacity, h.program]
      rw [dif_neg hle, dif_neg hle', hfree]
      exact h.refuse _

theorem enter (h : a.Similar b) (x : UInt8) (payload : Payload) :
    (a.enter x payload).Similar (b.enter x payload) := by
  unfold Ideal.enter
  by_cases hx : x = terminator
  · rw [if_pos hx, if_pos hx]
    exact ⟨h.exitEdit, rfl, rfl⟩
  · rw [if_neg hx, if_neg hx]
    cases Opcode.ofByte? x with
    | none => exact h.refuse _
    | some op => exact h.offer _

theorem load (h : a.Similar b) (code : List UInt8) : (a.load code).Similar (b.load code) := by
  unfold Ideal.load
  by_cases hm : a.mode = .paused
  · rw [if_pos hm, if_pos (h.mode ▸ hm)]
    by_cases hlen : code.length ≤ a.capacity
    · rw [dif_pos hlen, dif_pos (h.capacity ▸ hlen)]
      cases validate code with
      | error flaw => exact h.refuse _
      | ok _ => exact ⟨h.install _ _, rfl, rfl⟩
    · rw [dif_neg hlen, dif_neg (h.capacity ▸ hlen), h.capacity]
      exact h.refuse _
  · rw [if_neg hm, if_neg (h.mode ▸ hm), h.mode]
    exact h.refuse _

theorem start (h : a.Similar b) : a.start.Similar b.start := by
  unfold Ideal.start
  by_cases hp : a.program = []
  · rw [dif_pos hp, dif_pos (h.program ▸ hp)]
    exact ⟨h, rfl, rfl⟩
  · rw [dif_neg hp, dif_neg (h.program ▸ hp)]
    exact ⟨h.play _ _, rfl, rfl⟩

/-- **One event.** -/
theorem step (h : a.Similar b) (e : Sequencer.Event) : (a.step e).Similar (b.step e) := by
  unfold Ideal.step
  cases e with
  | command x payload =>
    dsimp only
    by_cases hm : a.mode = .commandEntry
    · rw [if_pos hm, if_pos (h.mode ▸ hm)]
      exact h.enter x payload
    · rw [if_neg hm, if_neg (h.mode ▸ hm)]
      exact h.obey x
  | tick =>
    dsimp only
    by_cases hm : a.mode = .running
    · rw [dif_pos hm, dif_pos (h.mode ▸ hm), h.nextTick]
      exact ⟨h.tick hm _, rfl, rfl⟩
    · rw [dif_neg hm, dif_neg (h.mode ▸ hm)]
      exact ⟨h, rfl, rfl⟩
  | load code => exact h.load code
  | start => exact h.start

end Similar

end Ideal

namespace Sequencer

/-! ## Later runs -/

/-- What a run brings about: for each event the answer and the calls on the strip. -/
def replies (s : Sequencer) (events : List Event) : List (Answer × Array Strip.Call) :=
  (s.outcomes events).map fun o => (o.answer, o.calls)

@[simp] theorem replies_cons (s : Sequencer) (e : Event) (events : List Event) :
    s.replies (e :: events)
      = ((s.step e).answer, (s.step e).calls) :: (s.step e).state.replies events := rfl

/-- Two states show the same, the append cursor apart, and no later commands, ticks and loads tell them
apart. -/
structure Interchangeable (s t : Sequencer) : Prop where
  mode : s.mode = t.mode
  capacity : s.store.capacity = t.store.capacity
  remaining : s.store.remaining = t.store.remaining
  program : s.program = t.program
  position : s.position = t.position
  replies : ∀ events, .start ∉ events → s.replies events = t.replies events

end Sequencer

variable {s t : Sequencer} {a b : Ideal}

/-- Commands, ticks and loads bring about the same in similar states. -/
theorem replies_eq_of_similar (hs : Realizes s a) (ht : Realizes t b) (h : a.Similar b)
    {events : List Sequencer.Event} (hstart : .start ∉ events) : s.replies events = t.replies events := by
  induction events generalizing s t a b with
  | nil => rfl
  | cons e events ih =>
    rw [List.mem_cons, not_or] at hstart
    have hs' := step_matches hs (fun he => absurd he.symm hstart.1)
    have ht' := step_matches ht (fun he => absurd he.symm hstart.1)
    have hstep := h.step e
    rw [Sequencer.replies_cons, Sequencer.replies_cons, hs'.answer, ht'.answer, hs'.calls, ht'.calls,
      hstep.answer, hstep.calls, ih hs'.state ht'.state hstep.state hstart.2]

theorem interchangeable_of_similar (hs : Realizes s a) (ht : Realizes t b) (h : a.Similar b) :
    s.Interchangeable t where
  mode := by rw [hs.mode, ht.mode, h.mode]
  capacity := by rw [hs.capacity, ht.capacity, h.capacity]
  remaining := by rw [hs.remaining, ht.remaining, Ideal.free, Ideal.free, h.capacity, h.program]
  program := by rw [hs.program_eq, ht.program_eq, h.program]
  position := by rw [hs.position, ht.position, h.program, h.next, h.delay]
  replies := fun _ => replies_eq_of_similar hs ht h

/-! ## Typing a program -/

/-- The program is cleared, and a session enters another. -/
def typing (cleared first : Payload) (entries : List Entry) (last : Payload) : List Sequencer.Event :=
  .command Command.clear.code cleared :: session first entries last

/-- The entry of an instruction; the bytes that the instruction does not take are zero. -/
def Entry.ofInstruction (i : Instruction) : Entry := ⟨i.opcode, .ofList i.operands⟩

@[simp] theorem Entry.instruction_ofInstruction (i : Instruction) : (ofInstruction i).instruction = i := by
  cases i <;> rfl

/-- Every program can be typed. -/
theorem exists_entries (p : List Instruction) :
    ∃ entries : List Entry, entries.map Entry.instruction = p := by
  refine ⟨p.map Entry.ofInstruction, ?_⟩
  induction p with
  | nil => rfl
  | cons i p ih => rw [List.map_cons, List.map_cons, Entry.instruction_ofInstruction, ih]

/-- Entries that no rule rejects and that fit together are all accepted. -/
theorem entries_done (h : Realizes s a) (hm : a.mode = .commandEntry) {entries : List Entry}
    (hallowed : ∀ e ∈ entries, Sequencer.rejection? a.rules e.instruction = none)
    (hfits : size a.program + size (entries.map Entry.instruction) ≤ a.capacity) :
    s.answers (entries.map Entry.event) = entries.map fun _ => .done := by
  induction entries generalizing s a with
  | nil => rfl
  | cons e entries ih =>
    rw [List.map_cons, size_cons] at hfits
    have hstep := entry_matches h hm e
    obtain ⟨hrules, hcapacity, hmode⟩ := a.offer_frame e.instruction
    have hdone : (a.offer e.instruction).answer = .done :=
      (a.offer_answer_iff e.instruction).mpr ⟨hallowed e List.mem_cons_self, by omega⟩
    have hprogram := a.offer_program e.instruction
    rw [if_pos hdone] at hprogram
    -- the later entries are offered behind this one
    have hrest : (s.step e.event).state.answers (entries.map Entry.event) = entries.map fun _ => .done := by
      apply ih hstep.state (hmode.trans hm)
      · intro e' he'
        rw [hrules]
        exact hallowed e' (List.mem_cons_of_mem e he')
      · rw [hprogram, hcapacity, size_append, size_cons, size_nil]
        omega
    rw [List.map_cons, List.map_cons, Sequencer.answers_cons, hstep.answer, hdone, hrest]

theorem accepted_of_done (entries : List Entry) :
    accepted entries (entries.map fun _ => .done) = entries.map Entry.instruction := by
  induction entries with
  | nil => rfl
  | cons e entries ih => rw [List.map_cons, accepted, if_pos rfl, ih, List.map_cons]

/-- A program that is typed is installed, up to the append cursor. -/
theorem typing_installs (h : Realizes s a) (hm : a.mode ≠ .commandEntry) {entries : List Entry}
    (hallowed : ∀ e ∈ entries, Sequencer.rejection? a.rules e.instruction = none)
    (hfits : size (entries.map Entry.instruction) ≤ a.capacity) (cleared first last : Payload) :
    (∀ answer ∈ s.answers (typing cleared first entries last), answer = .done)
      ∧ ∃ b, Realizes (s.after (typing cleared first entries last)) b
        ∧ b.Similar (a.install (entries.map Entry.instruction) hfits) := by
  have hclear : Matches (s.step (.command Command.clear.code cleared)) ⟨a.clear, .done, #[.clear]⟩ :=
    h.obey_matches hm _ _
  have hpaused : a.clear.mode ≠ .commandEntry := nofun
  have hentry := hclear.state.enterEdit hpaused
  obtain ⟨hafter, hanswers⟩ := session_outcome hclear.state hpaused first entries last
  have hfits' : size [] + size (entries.map Entry.instruction) ≤ a.capacity := by simpa using hfits
  have hdone := entries_done hentry rfl hallowed hfits'
  obtain ⟨b, hb, hbm, hbr, hbc, hbp⟩ := entries_realize hentry rfl entries
  rw [hdone, accepted_of_done] at hbp
  rw [entryAnswers_eq hclear.state hpaused, hdone] at hanswers
  constructor
  · rw [typing, Sequencer.answers_cons, hclear.answer, hanswers]
    intro answer hmem
    simp only [List.mem_cons, List.mem_append, List.mem_map, List.not_mem_nil, or_false] at hmem
    rcases hmem with rfl | rfl | ⟨_, _, rfl⟩ | rfl <;> rfl
  · refine ⟨b.exitEdit, ?_, hbr, hbc, hbp, rfl, rfl, rfl⟩
    rw [typing, Sequencer.after_cons, hafter]
    exact hb.exitEdit hbm

/-! ## Loading a program -/

/-- A program that is loaded after a pause is installed. -/
theorem loading_installs (h : Realizes s a) (hm : a.mode ≠ .commandEntry) {p : List Instruction}
    (hfits : size p ≤ a.capacity) (paused : Payload) :
    (∀ answer ∈ s.answers [.command Command.pause.code paused, .load (encode p)], answer = .done)
      ∧ Realizes (s.after [.command Command.pause.code paused, .load (encode p)]) (a.install p hfits) := by
  have hpause : Matches (s.step (.command Command.pause.code paused)) ⟨a.pause, .done, #[]⟩ :=
    h.obey_matches hm _ _
  obtain ⟨loaded, hload, hreal⟩ := hpause.state.load_of_valid rfl hfits
  have hstep := Sequencer.step_of_load hload
  constructor
  · simp [hpause.answer, hstep]
  · rw [Sequencer.after_cons, Sequencer.after_cons, hstep]
    exact hreal

/-- A new sequencer with a program has it installed. -/
theorem new_installs {setup : Sequencer.Setup} {p : List Instruction} (hcode : setup.code = encode p)
    (hfits : size p ≤ setup.capacity.toNat) :
    ∃ fresh, Sequencer.new setup = .ok fresh
      ∧ Realizes fresh (Ideal.standing setup.rules setup.capacity.toNat p hfits) := by
  obtain ⟨fresh, hload, hreal⟩ := (realizes_blank setup).load_of_valid rfl hfits
  rw [← hcode, ← new_eq_load] at hload
  exact ⟨fresh, hload, hreal⟩

/-! ## The three ways -/

/-- A rule rejects only pixels beyond the strip, under the policy that refuses those. -/
theorem rejection?_eq_none_of_within {rules : Player.Rules} {i : Instruction}
    (h : rules.policy = .reject → ∀ index red green blue, i = .pixel index red green blue →
      index < rules.leds) : Sequencer.rejection? rules i = none := by
  cases i with
  | pixel index red green blue =>
    refine if_neg ?_
    rintro ⟨hreject, hle⟩
    have hlt := h hreject index red green blue rfl
    rw [UInt8.lt_iff_toNat_lt] at hlt
    rw [UInt8.le_iff_toNat_le] at hle
    omega
  | clear | delay | all => rfl

/-- **Three ways to install a program agree.** From every state outside command entry that an orderly run
of a new sequencer reaches, a program that fits can be typed after a clear and loaded after a pause, and a
new sequencer with the same setup can be given it. All events are accepted, and the three results are
interchangeable. There are entries for every program, and they may have any bytes where their instructions
take none. -/
theorem installations_interchangeable {setup : Sequencer.Setup} {first : Sequencer}
    (hnew : Sequencer.new setup = .ok first) {events : List Sequencer.Event} (ho : first.Orderly events)
    (hm : (first.after events).mode ≠ .commandEntry) {code : List UInt8} (hvalid : validate code = .ok ())
    (hfits : code.length ≤ (first.after events).store.capacity)
    (hpixels : setup.policy = .reject → ∀ index red green blue,
      .pixel index red green blue ∈ decode code → index < setup.leds)
    (cleared opened closed paused : Payload) :
    (∃ entries : List Entry, entries.map Entry.instruction = decode code)
      ∧ (∀ answer ∈ (first.after events).answers [.command Command.pause.code paused, .load code],
          answer = .done)
      ∧ ∃ fresh, Sequencer.new { setup with code } = .ok fresh
        ∧ ∀ entries : List Entry, entries.map Entry.instruction = decode code →
          (∀ answer ∈ (first.after events).answers (typing cleared opened entries closed), answer = .done)
          ∧ ((first.after events).after (typing cleared opened entries closed)).Interchangeable
              ((first.after events).after [.command Command.pause.code paused, .load code])
          ∧ ((first.after events).after (typing cleared opened entries closed)).Interchangeable fresh := by
  obtain ⟨p, rfl⟩ := exists_encode_of_validate hvalid
  rw [decode_encode] at hpixels ⊢
  have h := realizes_after (realizes_new hnew) ho
  generalize Ideal.after _ events = a at h
  have ham : a.mode ≠ .commandEntry := h.mode ▸ hm
  -- the setup of the reached state is the one that the new sequencer is given
  obtain ⟨hrules, hcapacity⟩ := new_setup_kept hnew events
  rw [h.rules] at hrules
  rw [h.capacity] at hcapacity hfits
  obtain ⟨hloaded, hload⟩ := loading_installs h ham hfits paused
  obtain ⟨fresh, hfresh, hreal⟩ := @new_installs { setup with code := encode p } p rfl (hcapacity ▸ hfits)
  refine ⟨exists_entries p, hloaded, fresh, hfresh, ?_⟩
  rintro entries rfl
  have hallowed : ∀ e ∈ entries, Sequencer.rejection? a.rules e.instruction = none := by
    intro e he
    apply rejection?_eq_none_of_within
    rw [hrules]
    intro hreject index red green blue heq
    exact hpixels hreject index red green blue (heq ▸ List.mem_map_of_mem he)
  obtain ⟨htyped, b, hb, hsimilar⟩ := typing_installs h ham hallowed hfits cleared opened closed
  refine ⟨htyped, interchangeable_of_similar hb hload hsimilar, ?_⟩
  exact interchangeable_of_similar hb hreal
    ⟨hsimilar.rules.trans hrules, hsimilar.capacity.trans hcapacity, hsimilar.program, hsimilar.mode,
      hsimilar.next, hsimilar.delay⟩

/-- A program that fills the buffer, installed while another is played. One entry has bytes that its
instruction does not take. -/
theorem full_buffer_installed_three_ways :
    ∃ first fresh, Sequencer.new
          { leds := 3, capacity := 6, maxSteps := 1, policy := .reject,
            code := encode [.all 1 2 3, .delay 9] } = .ok first
      ∧ Sequencer.new
          { leds := 3, capacity := 6, maxSteps := 1, policy := .reject,
            code := encode [.pixel 2 7 7 7, .clear] } = .ok fresh
      ∧ first.Orderly [.start, .tick] ∧ (first.after [.start, .tick]).mode = .running
      ∧ ((first.after [.start, .tick]).after
            (typing {} {} [⟨.pixel, ⟨2, 7, 7, 7⟩⟩, ⟨.clear, ⟨9, 9, 9, 9⟩⟩] {})).Interchangeable
          ((first.after [.start, .tick]).after
            [.command 3 {}, .load (encode [.pixel 2 7 7 7, .clear])])
      ∧ ((first.after [.start, .tick]).after
            (typing {} {} [⟨.pixel, ⟨2, 7, 7, 7⟩⟩, ⟨.clear, ⟨9, 9, 9, 9⟩⟩] {})).Interchangeable fresh := by
  have hnew := @new_encode
    { leds := 3, capacity := 6, maxSteps := 1, policy := .reject, code := encode [.all 1 2 3, .delay 9] }
    [.all 1 2 3, .delay 9] rfl (by decide)
  have hpixels : ∀ index red green blue,
      .pixel index red green blue ∈ decode (encode [.pixel 2 7 7 7, .clear]) → index < 3 := by
    intro index red green blue hmem
    rw [decode_encode] at hmem
    obtain ⟨rfl, _⟩ : index = 2 ∧ _ := by simpa using hmem
    decide
  have hentries : [⟨.pixel, ⟨2, 7, 7, 7⟩⟩, ⟨.clear, ⟨9, 9, 9, 9⟩⟩].map Entry.instruction
      = decode (encode [.pixel 2 7 7 7, .clear]) := by
    rw [decode_encode]
    rfl
  obtain ⟨_, _, fresh, hfresh, hall⟩ := installations_interchangeable hnew
    (by decide : Sequencer.Orderly _ [.start, .tick]) (by decide)
    (validate_encode [.pixel 2 7 7 7, .clear]) (by decide) (fun _ => hpixels) {} {} {} {}
  obtain ⟨_, hloaded, hfreshly⟩ := hall _ hentries
  exact ⟨_, fresh, hnew, hfresh, by decide, by decide, hloaded, hfreshly⟩

end StripSequencer
