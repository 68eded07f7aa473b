import StripSequencer.Proofs.Refinement

/-!
# `StripSequencer.Proofs.EditSession` — what an edit session leaves in the program

An edit session opens command entry, offers instructions one after the other and closes command entry
again. It appends exactly the accepted ones, in order, and an instruction is accepted if it fits behind
what was accepted before it; a refused one stands in nobody's way.

## Contents
- `Entry`, `session`, `accepted`: a session and what it accepts.
- `entries_realize`: the offers of a session, by induction on them.
- `EditSession`, `edit_session_appends_accepted`: the whole session.
-/

namespace StripSequencer

open Program

/-- An instruction as it is offered in command entry. -/
structure Entry where
  opcode : Opcode
  payload : Payload
deriving DecidableEq, Repr

namespace Entry

/-- The command of an entry. -/
def event (e : Entry) : Sequencer.Event := .command e.opcode.code e.payload

/-- The instruction of an entry. -/
def instruction (e : Entry) : Instruction := Instruction.ofPayload e.opcode e.payload

/-- The policy lets the entry pass: it does not light a pixel beyond a strip that refuses those. -/
def Allowed (rules : Player.Rules) (e : Entry) : Prop :=
  ¬ (e.opcode = .pixel ∧ rules.policy = .reject ∧ rules.leds ≤ e.payload.first)

end Entry

/-- The instructions of the entries that were answered with `done`. -/
def accepted : List Entry → List Sequencer.Answer → List Instruction
  | e :: entries, answer :: answers =>
    if answer = .done then e.instruction :: accepted entries answers else accepted entries answers
  | _, _ => []

/-- The command that opens command entry. -/
def opening (payload : Payload) : Sequencer.Event := .command Command.enterEdit.code payload

/-- The command that closes command entry. -/
def closing (payload : Payload) : Sequencer.Event := .command terminator payload

/-- A whole session. -/
def session (first : Payload) (entries : List Entry) (last : Payload) : List Sequencer.Event :=
  opening first :: (entries.map Entry.event ++ [closing last])

/-- The answers to the entries of a session. -/
def entryAnswers (s : Sequencer) (first : Payload) (entries : List Entry) : List Sequencer.Answer :=
  (s.after [opening first]).answers (entries.map Entry.event)

/-! ## The offers -/

theorem rejection?_eq_none_iff (rules : Player.Rules) (e : Entry) :
    Sequencer.rejection? rules e.instruction = none ↔ e.Allowed rules := by
  obtain ⟨opcode, payload⟩ := e
  cases opcode <;> simp [Entry.instruction, Instruction.ofPayload, Sequencer.rejection?, Entry.Allowed]

variable {s : Sequencer} {a : Ideal}

/-- One offer. -/
theorem entry_matches (h : Realizes s a) (hm : a.mode = .commandEntry) (e : Entry) :
    Matches (s.step e.event) (a.offer e.instruction) := by
  have henter : a.enter e.opcode.code e.payload = a.offer e.instruction := by
    have hne : e.opcode.code ≠ terminator := by cases e.opcode <;> decide
    unfold Ideal.enter
    rw [if_neg hne, Opcode.ofByte?_code]
    rfl
  rw [← henter]
  exact h.enter_matches hm _ _

/-- The offers of a session extend the program by the accepted ones, and leave all else. -/
theorem entries_realize (h : Realizes s a) (hm : a.mode = .commandEntry) (entries : List Entry) :
    ∃ b, Realizes (s.after (entries.map Entry.event)) b ∧ b.mode = .commandEntry
      ∧ b.rules = a.rules ∧ b.capacity = a.capacity
      ∧ b.program = a.program ++ accepted entries (s.answers (entries.map Entry.event)) := by
  induction entries generalizing s a with
  | nil => exact ⟨a, h, hm, rfl, rfl, by simp [accepted]⟩
  | cons e entries ih =>
    -- the first offer decides what the later ones are appended to
    have hstep := entry_matches h hm e
    obtain ⟨hrules, hcapacity, hmode⟩ := a.offer_frame e.instruction
    obtain ⟨b, hb, hbm, hbr, hbc, hbp⟩ := ih hstep.state (hmode.trans hm)
    refine ⟨b, hb, hbm, hbr.trans hrules, hbc.trans hcapacity, ?_⟩
    rw [hbp, a.offer_program e.instruction, List.append_assoc, ← hstep.answer]
    simp only [List.map_cons, Sequencer.answers_cons, accepted]
    by_cases hdone : (s.step e.event).answer = .done
    · simp only [if_pos hdone, List.singleton_append]
    · simp only [if_neg hdone, List.nil_append]

/-- If nothing is accepted, nothing is changed. -/
theorem after_of_accepted_nil (entries : List Entry)
    (h : accepted entries (s.answers (entries.map Entry.event)) = []) :
    s.after (entries.map Entry.event) = s := by
  induction entries generalizing s with
  | nil => rfl
  | cons e entries ih =>
    have hanswer : (s.step e.event).answer = .done ∨ ∃ why, (s.step e.event).answer = .refused why :=
      s.answer_command e.opcode.code e.payload
    simp only [List.map_cons, Sequencer.answers_cons, accepted] at h
    rcases hanswer with hdone | ⟨why, hrefused⟩
    · rw [if_pos hdone] at h
      cases h
    · have hstate : (s.step e.event).state = s := by rw [Sequencer.step_of_refused hrefused]
      have hne : (s.step e.event).answer ≠ .done := by rw [hrefused]; exact nofun
      rw [if_neg hne, hstate] at h
      rw [List.map_cons, Sequencer.after_cons, hstate]
      exact ih h

/-- Which offers are accepted: those that pass the policy and fit behind the accepted ones before them. -/
theorem answers_eq_done_iff (h : Realizes s a) (hm : a.mode = .commandEntry) {entries : List Entry}
    {k : Nat} {e : Entry} (hk : entries[k]? = some e) :
    (s.answers (entries.map Entry.event))[k]? = some .done
      ↔ e.Allowed a.rules
        ∧ size a.program
            + size (accepted (entries.take k) ((s.answers (entries.map Entry.event)).take k))
            + e.instruction.size ≤ a.capacity := by
  -- offer `k` meets the state that the first `k` entries lead to
  obtain ⟨b, hb, hbm, hbr, hbc, hbp⟩ := entries_realize h hm (entries.take k)
  rw [List.map_take, Sequencer.answers_take] at hbp
  rw [List.map_take] at hb
  have hoffer := entry_matches hb hbm e
  rw [Sequencer.getElem?_answers, List.getElem?_map, hk]
  show some ((s.after ((entries.map Entry.event).take k)).step e.event).answer = some .done ↔ _
  rw [Option.some_inj, hoffer.answer, b.offer_answer_iff, rejection?_eq_none_iff, hbr, hbc, hbp,
    size_append]

/-! ## The whole session -/

/-- The terminator is already there before a session, or the buffer is full. -/
theorem terminate_eq_self (h : Realizes s a) (hm : a.mode ≠ .commandEntry) :
    (s.store.terminate (size a.program)).getD s.store = s.store := by
  obtain ⟨rest, hcode, hended⟩ := h.layout_ended hm
  have hset : s.store.code.set (size a.program) terminator = s.store.code := by
    rw [hcode, set_layout, hended.set_terminator]
  unfold Store.terminate
  by_cases hout : (size a.program : Int) < 0 ∨ (s.store.capacity : Int) ≤ size a.program
  · rw [if_pos hout]
    rfl
  · rw [if_neg hout, Int.toNat_natCast, hset]
    rfl

/-- What an edit session from `s` comes to. -/
structure EditSession (s : Sequencer) (first : Payload) (entries : List Entry) (last : Payload) :
    Prop where
  answers_eq : s.answers (session first entries last)
    = .done :: (entryAnswers s first entries ++ [.done])
  mode_eq : (s.after (session first entries last)).mode = .paused
  position_eq : (s.after (session first entries last)).position = ⟨0, 0⟩
  program_eq : (s.after (session first entries last)).program
    = s.program ++ encode (accepted entries (entryAnswers s first entries))
  remaining_eq : ((s.after (session first entries last)).store.remaining : Int)
    = s.store.capacity - (s.after (session first entries last)).program.length
  accepted_iff : ∀ k e, entries[k]? = some e →
    ((entryAnswers s first entries)[k]? = some .done
      ↔ e.Allowed s.rules
        ∧ e.instruction.encode.length
          ≤ (s.store.capacity : Int)
            - (s.program ++ encode (accepted (entries.take k)
                ((entryAnswers s first entries).take k))).length)
  unchanged : accepted entries (entryAnswers s first entries) = [] →
    (s.after (session first entries last)).store.code = s.store.code

/-- The opening command. -/
theorem opening_matches (h : Realizes s a) (hm : a.mode ≠ .commandEntry) (first : Payload) :
    s.step (opening first) = ⟨s.enterEdit.1, .done, #[.clear]⟩
      ∧ Realizes s.enterEdit.1 a.enterEdit := by
  have hmode : s.mode ≠ .commandEntry := h.mode ▸ hm
  have hrule : Sequencer.Transition s (opening first) ⟨s.enterEdit.1, .done, #[.clear]⟩ := .enterEdit hmode rfl
  exact ⟨hrule.step_eq, h.enterEdit hm⟩

/-- The closing command. -/
theorem closing_matches (h : Realizes s a) (hm : a.mode = .commandEntry) (last : Payload) :
    s.step (closing last) = ⟨s.exitEdit, .done, #[]⟩ ∧ Realizes s.exitEdit a.exitEdit := by
  have hrule : Sequencer.Transition s (closing last) ⟨s.exitEdit, .done, #[]⟩ := .exitEdit (h.mode.trans hm)
  exact ⟨hrule.step_eq, h.exitEdit hm⟩

/-- The answers to the entries are those that are given once command entry is open. -/
theorem entryAnswers_eq (h : Realizes s a) (hm : a.mode ≠ .commandEntry) (first : Payload)
    (entries : List Entry) :
    entryAnswers s first entries = s.enterEdit.1.answers (entries.map Entry.event) := by
  unfold entryAnswers
  rw [Sequencer.after_cons, (opening_matches h hm first).1]
  rfl

/-- Command entry is opened, the entries are answered, and command entry is closed. -/
theorem session_outcome (h : Realizes s a) (hm : a.mode ≠ .commandEntry) (first : Payload)
    (entries : List Entry) (last : Payload) :
    s.after (session first entries last) = (s.enterEdit.1.after (entries.map Entry.event)).exitEdit
      ∧ s.answers (session first entries last)
        = .done :: (entryAnswers s first entries ++ [.done]) := by
  obtain ⟨hopen, hentry⟩ := opening_matches h hm first
  obtain ⟨b, hb, hbm, _⟩ := entries_realize hentry rfl entries
  obtain ⟨hclose, _⟩ := closing_matches hb hbm last
  constructor
  · rw [session, Sequencer.after_cons, hopen, Sequencer.after_append, Sequencer.after_cons, hclose]
    rfl
  · rw [session, Sequencer.answers_cons, hopen, Sequencer.answers_append, Sequencer.answers_cons,
      hclose, Sequencer.answers_nil, entryAnswers_eq h hm]

/-- **A session appends the accepted entries, in order, and nothing else.** -/
theorem edit_session_appends_accepted (hs : s.Reached) (hm : s.mode ≠ .commandEntry) (first : Payload)
    (entries : List Entry) (last : Payload) : EditSession s first entries last := by
  obtain ⟨a, h⟩ := hs.exists_ideal
  have ham : a.mode ≠ .commandEntry := h.mode ▸ hm
  have hentry := h.enterEdit ham
  have hanswers := entryAnswers_eq h ham first entries
  obtain ⟨b, hb, hbm, hbr, hbc, hbp⟩ := entries_realize hentry rfl entries
  have hfinal := hb.exitEdit hbm
  obtain ⟨hafter, hall⟩ := session_outcome h ham first entries last
  have hprogram : encode b.program
      = s.program ++ encode (accepted entries (entryAnswers s first entries)) := by
    rw [hbp, ← hanswers, encode_append, h.program_eq]
    rfl
  exact {
    answers_eq := hall
    mode_eq := by
      rw [hafter]
      rfl
    position_eq := by
      rw [hafter, hfinal.position]
      simp [Ideal.exitEdit]
    program_eq := by
      rw [hafter, hfinal.program_eq]
      exact hprogram
    remaining_eq := by
      have hfits := b.fits
      have hcapacity : b.capacity = a.capacity := hbc
      rw [hafter, hfinal.remaining, hfinal.program_eq, length_encode, h.capacity]
      show ((b.capacity - size b.program : Nat) : Int) = (a.capacity : Int) - (size b.program : Int)
      omega
    accepted_iff := by
      intro k e hk
      rw [hanswers, answers_eq_done_iff hentry rfl hk, h.rules, h.capacity, h.program_eq,
        List.length_append, length_encode, length_encode, Instruction.length_encode]
      refine and_congr Iff.rfl ?_
      show size a.program + _ + _ ≤ a.capacity ↔ _
      omega
    unchanged := by
      -- nothing was written before the terminator, and the terminator is there already
      intro hnil
      rw [hanswers] at hnil
      rw [hafter, after_of_accepted_nil entries hnil]
      show ((s.store.terminate s.store.extent).getD s.store).code = s.store.code
      rw [h.extent_eq ham, terminate_eq_self h ham] }

/-- A session over the bytes of a longer program: the first entry is refused by the policy, the third one
does not fit, and the last one fills the buffer. -/
theorem edit_session_fills_buffer :
    ∃ s : Sequencer, s.Reached ∧ s.mode ≠ .commandEntry
      ∧ EditSession s {} [⟨.pixel, ⟨3, 1, 1, 1⟩⟩, ⟨.all, ⟨1, 2, 3, 0⟩⟩, ⟨.delay, ⟨5, 0, 0, 0⟩⟩,
          ⟨.clear, {}⟩] {} := by
  have hnew := @new_encode
    { leds := 3, capacity := 6, policy := .reject, code := encode [.all 4 5 6, .delay 9] }
    [.all 4 5 6, .delay 9] rfl (by decide)
  have hs := (Sequencer.Reached.of_new hnew).after
    (by decide : Sequencer.Orderly _ [.command 1 {}, .command 4 {}, .command 1 {}, .command 0 {}])
  exact ⟨_, hs, by decide, edit_session_appends_accepted hs (by decide) _ _ _⟩

end StripSequencer
