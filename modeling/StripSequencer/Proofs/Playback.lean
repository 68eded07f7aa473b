import StripSequencer.Proofs.Refinement

/-!
# `StripSequencer.Proofs.Playback` — playback goes round the program in order

Ticks may be cut by the step bound, by delays and by pauses, and commands may be refused between them.
Over any run of such events, what was executed is one stretch of the endlessly repeated program: nothing
is left out, nothing happens twice, and the strip sees the effects in order.

## Contents
- `Sequencer.Plays`: the events of playback; `Sequencer.executed`, `Sequencer.wrapped`: what ticks report.
- `Shows`: the effect of an instruction, said for each kind.
- `plays_step`, `plays_run`: one event, a run of events.
- `playback_follows_program`: the calls and the cursor of a run.
-/

namespace StripSequencer

open Program

namespace Sequencer

/-- The byte of a command. -/
def Event.byte? : Event → Option UInt8
  | .command b _ => some b
  | _ => none

/-- The answer is a refusal. -/
def Answer.isRefused : Answer → Bool
  | .refused _ => true
  | _ => false

/-- An event of playback: a tick, a pause, a start by command, or anything that is refused. -/
def Plays (s : Sequencer) (e : Event) : Prop :=
  e = .tick ∨ e.byte? = some Command.pause.code ∨ e.byte? = some Command.run.code
    ∨ (s.step e).answer.isRefused = true

instance (s : Sequencer) (e : Event) : Decidable (s.Plays e) :=
  inferInstanceAs (Decidable (e = .tick ∨ e.byte? = some Command.pause.code
    ∨ e.byte? = some Command.run.code ∨ (s.step e).answer.isRefused = true))

theorem Event.eq_command_of_byte? {e : Event} {b : UInt8} (h : e.byte? = some b) :
    ∃ payload, e = .command b payload := by
  cases e with
  | command c payload => exact ⟨payload, by rw [Option.some.inj h]⟩
  | tick => cases h
  | load code => cases h
  | start => cases h

theorem Answer.eq_refused_of_isRefused {answer : Answer} (h : answer.isRefused = true) :
    ∃ why, answer = .refused why := by
  cases answer with
  | refused why => exact ⟨why, rfl⟩
  | done => cases h
  | ticked report => cases h

/-- The report of an answer; only ticks have one. -/
def Answer.report : Answer → Player.Report
  | .ticked report => report
  | _ => {}

/-- The number of instructions that the ticks of a run report as executed. -/
def executed (s : Sequencer) (events : List Event) : Nat :=
  ((s.answers events).map fun answer => answer.report.executed).foldr (· + ·) 0

/-- The number of wraps that the ticks of a run report. -/
def wrapped (s : Sequencer) (events : List Event) : Nat :=
  ((s.answers events).map fun answer => answer.report.wrapped).foldr (· + ·) 0

end Sequencer

/-- The calls that playing an instruction is to make. -/
def Shows (rules : Player.Rules) (calls : List Strip.Call) : Instruction → Prop
  | .clear => calls = [.clear]
  | .pixel index red green blue =>
    if rules.leds ≤ index ∧ rules.policy ≠ .forward then calls = []
    else calls = [.setPixel index ⟨red, green, blue⟩]
  | .all red green blue =>
    calls.length = rules.leds.toNat
      ∧ ∀ index < rules.leds, calls[index.toNat]? = some (.setPixel index ⟨red, green, blue⟩)
  | .delay _ => calls = []

theorem shows_effect (rules : Player.Rules) (i : Instruction) : Shows rules (Player.effect rules i) i := by
  cases i with
  | clear => rfl
  | delay ticks => rfl
  | pixel index red green blue =>
    by_cases hdrop : rules.leds ≤ index ∧ rules.policy ≠ .forward
    · simp [Shows, Player.effect, Player.drops, hdrop]
    · simp [Shows, Player.effect, Player.drops, hdrop]
  | all red green blue =>
    refine ⟨by simp [Player.effect], ?_⟩
    intro index hindex
    have hlt : index.toNat < rules.leds.toNat := UInt8.lt_iff_toNat_lt.mp hindex
    simp [Player.effect, hlt]

/-! ## One event -/

variable {s : Sequencer} {a : Ideal}

/-- An outcome leaves the program, and plays `done` of it. -/
structure Played (a : Ideal) (o : Sequencer.Outcome) (b : Ideal) (done : List Instruction) : Prop where
  realizes : Realizes o.state b
  mode : b.mode ≠ .commandEntry
  program : b.program = a.program
  rules : b.rules = a.rules
  segment : Cycle.Segment a.program a.next done o.answer.report.wrapped b.next
  executed : o.answer.report.executed = done.length
  calls : o.calls.toList = done.flatMap (Player.effect a.rules)

/-- Nothing is played, and playback stays where it is. -/
theorem Played.nothing {o : Sequencer.Outcome} {b : Ideal} (h : Realizes o.state b)
    (hm : b.mode ≠ .commandEntry) (hprogram : b.program = a.program) (hrules : b.rules = a.rules)
    (hnext : b.next = a.next) (hreport : o.answer.report = {}) (hcalls : o.calls = #[]) :
    Played a o b [] where
  realizes := h
  mode := hm
  program := hprogram
  rules := hrules
  segment := by
    rw [hreport, hnext]
    exact Cycle.Segment.stay a.next_le
  executed := by rw [hreport]; rfl
  calls := by rw [hcalls]; rfl

theorem refused_played (h : Realizes s a) (hm : a.mode ≠ .commandEntry) {e : Sequencer.Event}
    {why : Refusal} (hr : (s.step e).answer = .refused why) : Played a (s.step e) a [] := by
  rw [Sequencer.step_of_refused hr]
  exact Played.nothing h hm rfl rfl rfl rfl rfl

theorem tick_played (h : Realizes s a) (hm : a.mode ≠ .commandEntry) :
    ∃ b done, Played a (s.step .tick) b done := by
  by_cases hrun : a.mode = .running
  · obtain ⟨hstep, hreal⟩ := h.tick hrun
    have hexec : ∃ done, Cycle.Executes a.rules a.program a.next {} #[] a.nextTick done :=
      Cycle.tick_segment a.next_le a.delay
    obtain ⟨done, ⟨wraps, hseg, hwraps⟩, hcount, hcalls⟩ := hexec
    refine ⟨a.tick hrun, done, ?_⟩
    rw [hstep]
    exact {
      realizes := hreal
      mode := hm
      program := rfl
      rules := rfl
      segment := by
        have hw : a.nextTick.report.wrapped = wraps := hwraps.trans (Nat.zero_add _)
        show Cycle.Segment a.program a.next done a.nextTick.report.wrapped a.nextTick.next
        rw [hw]
        exact hseg
      executed := hcount.trans (Nat.zero_add _)
      calls := hcalls }
  · refine ⟨a, [], ?_⟩
    rw [Sequencer.step_tick_idle (h.mode ▸ hrun)]
    exact Played.nothing h hm rfl rfl rfl rfl rfl

theorem pause_played (h : Realizes s a) (hm : a.mode ≠ .commandEntry) (payload : Payload) :
    Played a (s.step (.command Command.pause.code payload)) a.pause [] := by
  have hmatch := h.obey_matches hm Command.pause.code payload
  exact Played.nothing hmatch.state nofun rfl rfl rfl (by rw [hmatch.answer]; rfl) hmatch.calls

theorem run_played (h : Realizes s a) (hm : a.mode ≠ .commandEntry) (payload : Payload) :
    ∃ b, Played a (s.step (.command Command.run.code payload)) b [] := by
  have hmatch := h.obey_matches hm Command.run.code payload
  have hobey : a.obey Command.run.code
      = if a.mode = .running then ⟨a, .done, #[]⟩
        else if hp : a.program = [] then a.refuse .nothingToRun
        else ⟨a.play hp, .done, #[]⟩ := rfl
  rw [hobey] at hmatch
  by_cases hrun : a.mode = .running
  · rw [if_pos hrun] at hmatch
    exact ⟨a, Played.nothing hmatch.state hm rfl rfl rfl (by rw [hmatch.answer]; rfl) hmatch.calls⟩
  · rw [if_neg hrun] at hmatch
    by_cases hp : a.program = []
    · rw [dif_pos hp] at hmatch
      exact ⟨a, Played.nothing hmatch.state hm rfl rfl rfl (by rw [hmatch.answer]; rfl) hmatch.calls⟩
    · rw [dif_neg hp] at hmatch
      exact ⟨a.play hp, Played.nothing hmatch.state nofun rfl rfl rfl (by rw [hmatch.answer]; rfl)
        hmatch.calls⟩

/-- **One event of playback.** -/
theorem plays_step (h : Realizes s a) (hm : a.mode ≠ .commandEntry) {e : Sequencer.Event}
    (hplays : s.Plays e) : ∃ b done, Played a (s.step e) b done := by
  rcases hplays with rfl | hpause | hrun | hrefused
  · exact tick_played h hm
  · obtain ⟨payload, rfl⟩ := Sequencer.Event.eq_command_of_byte? hpause
    exact ⟨a.pause, [], pause_played h hm payload⟩
  · obtain ⟨payload, rfl⟩ := Sequencer.Event.eq_command_of_byte? hrun
    obtain ⟨b, hb⟩ := run_played h hm payload
    exact ⟨b, [], hb⟩
  · obtain ⟨why, hr⟩ := Sequencer.Answer.eq_refused_of_isRefused hrefused
    exact ⟨a, [], refused_played h hm hr⟩

/-! ## Runs -/

/-- **A run of playback.** The stretches of the events join up to one. -/
theorem plays_run (h : Realizes s a) (hm : a.mode ≠ .commandEntry) {events : List Sequencer.Event}
    (hplays : s.Along Sequencer.Plays events) :
    ∃ b done, Realizes (s.after events) b ∧ b.program = a.program
      ∧ Cycle.Segment a.program a.next done (s.wrapped events) b.next
      ∧ done.length = s.executed events
      ∧ s.callsOf events = done.flatMap (Player.effect a.rules) := by
  induction events generalizing s a with
  | nil => exact ⟨a, [], h, rfl, Cycle.Segment.stay a.next_le, rfl, rfl⟩
  | cons e events ih =>
    obtain ⟨mid, done, hplayed⟩ := plays_step h hm hplays.1
    -- the events after the first one go on where it leaves off, in the same program
    obtain ⟨b, more, hb, hprogram, hseg, hcount, hcalls⟩ := ih hplayed.realizes hplayed.mode hplays.2
    rw [hplayed.program] at hprogram hseg
    rw [hplayed.rules] at hcalls
    refine ⟨b, done ++ more, hb, hprogram, ?_, ?_, ?_⟩
    · exact hplayed.segment.trans hseg
    · rw [List.length_append, ← hplayed.executed, hcount]
      rfl
    · rw [List.flatMap_append, ← hplayed.calls, ← hcalls]
      rfl

/-- Over a run, the instructions `done` were played, of the program `p` from index `start` on. -/
structure Follows (s : Sequencer) (p : List Instruction) (start : Nat) (events : List Sequencer.Event)
    (done : List Instruction) : Prop where
  executed_eq : done.length = s.executed events
  in_order : ∀ m < done.length, done[m]? = p[(start + m) % p.length]?
  calls_eq : s.callsOf events = done.flatMap (Player.effect s.rules)
  shows_done : ∀ i ∈ done, Shows s.rules (Player.effect s.rules i) i
  /-- Playback stands behind the last of them. The end of the program and its start count as one place
  until the next wrap is reported. -/
  cursor_eq : ∃ stop ≤ p.length, (s.after events).position.cursor = offset p stop
    ∧ start + done.length = stop + p.length * s.wrapped events

/-- **Playback follows the program.** Whatever the step bound, the delays and the pauses are, the calls
are the effects of the next instructions of the repeated program, as many as the ticks report. -/
theorem playback_follows_program (hs : s.Reached) (hm : s.mode ≠ .commandEntry) {p : List Instruction}
    (hp : decode s.program = p) {start : Nat} (hstart : start ≤ p.length)
    (hcursor : s.position.cursor = offset p start) {events : List Sequencer.Event}
    (hplays : s.Along Sequencer.Plays events) : ∃ done, Follows s p start events done := by
  obtain ⟨a, h⟩ := hs.exists_ideal
  have hprogram : a.program = p := by rw [← hp, h.program_eq, decode_encode]
  -- the cursor stands at one index only
  have hnext : a.next = start := by
    have hle := a.next_le
    rw [h.position, hprogram] at hcursor
    rw [hprogram] at hle
    exact offset_injective hle hstart hcursor
  obtain ⟨b, done, hb, hbp, hseg, hcount, hcalls⟩ := plays_run h (h.mode ▸ hm) hplays
  rw [hprogram] at hbp
  rw [hprogram, hnext] at hseg
  refine ⟨done, hcount, hseg.follows, ?_, fun i _ => shows_effect s.rules i, ?_⟩
  · rw [h.rules]
    exact hcalls
  · refine ⟨b.next, hseg.stop_le, ?_, hseg.account⟩
    rw [hb.position, hbp]

/-- Playback from the end of a program that fills the buffer, cut after every third step, with a refused
command, a pause and a start between the ticks. -/
theorem playback_follows_full_buffer :
    ∃ s : Sequencer, s.Reached ∧ s.mode ≠ .commandEntry
      ∧ decode s.program = [.delay 2, .clear, .all 1 2 3, .pixel 7 1 1 1]
      ∧ s.position.cursor = offset [.delay 2, .clear, .all 1 2 3, .pixel 7 1 1 1] 4
      ∧ s.Along Sequencer.Plays [.tick, .command 9 {}, .command 3 {}, .tick, .command 2 {}, .tick]
      ∧ ∃ done, Follows s [.delay 2, .clear, .all 1 2 3, .pixel 7 1 1 1] 4
          [.tick, .command 9 {}, .command 3 {}, .tick, .command 2 {}, .tick] done := by
  have hnew := @new_encode
    { leds := 2, capacity := 12, maxSteps := 3,
      code := encode [.delay 2, .clear, .all 1 2 3, .pixel 7 1 1 1] }
    [.delay 2, .clear, .all 1 2 3, .pixel 7 1 1 1] rfl (by decide)
  have hs := (Sequencer.Reached.of_new hnew).after
    (by decide : Sequencer.Orderly _ [.start, .tick, .tick, .tick])
  have hp := decode_encode [.delay 2, .clear, .all 1 2 3, .pixel 7 1 1 1]
  exact ⟨_, hs, by decide, hp, by decide, by decide,
    playback_follows_program hs (by decide) hp (by decide) (by decide) (by decide)⟩

end StripSequencer
