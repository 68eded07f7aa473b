import StripSequencer.Proofs.Refinement
import StripSequencer.Proofs.Transition

/-!
# `StripSequencer.Proofs.TickIndependence` — ticks never influence editing

Ticks arrive at any time between the commands, loads and starts of clients. They move the place of
playback and nothing else, and no other event looks at that place. So two runs that have the same events
apart from ticks, wherever the ticks stand and however many there are, give the same answers, make the
same calls outside ticks and go through the same states as far as editing is concerned.

## Contents
- `Sequencer.Draft`: all of a state but the place of playback; `Sequencer.edits`: what a run does to it.
- `Transition.moved`: the rules apply in the same way wherever playback stands.
- `edits_untimed`: taking the ticks out of a run.
- `editing_ignores_ticks`: two runs with the same events apart from ticks.
-/

namespace StripSequencer

namespace Sequencer

/-- All of a state but the place of playback. -/
structure Draft where
  rules : Player.Rules
  mode : Mode
  /-- Every byte of the buffer, and what remains of it. -/
  store : Store
  appendCursor : Nat
deriving DecidableEq, Repr

/-- The state without the place of playback. -/
def draft (s : Sequencer) : Draft := ⟨s.rules, s.mode, s.store, s.appendCursor⟩

/-- What an event other than a tick comes to: its answer, its calls on the strip, and the draft after it. -/
structure Edit where
  answer : Answer
  calls : Array Strip.Call
  draft : Draft
deriving DecidableEq, Repr

/-- An outcome without the place of playback. -/
def Outcome.edit (o : Outcome) : Edit := ⟨o.answer, o.calls, o.state.draft⟩

/-- What the events of a run come to, ticks apart. -/
def edits (s : Sequencer) : List Event → List Edit
  | [] => []
  | .tick :: events => edits (s.step .tick).state events
  | e :: events => (s.step e).edit :: edits (s.step e).state events

/-- The events of a run without its ticks. -/
def untimed (events : List Event) : List Event := events.filter (· ≠ .tick)

theorem edits_cons_of_ne (s : Sequencer) {e : Event} (he : e ≠ .tick) (events : List Event) :
    s.edits (e :: events) = (s.step e).edit :: (s.step e).state.edits events := by
  cases e with
  | tick => exact absurd rfl he
  | command | load | start => rfl

theorem untimed_cons_of_ne {e : Event} (he : e ≠ .tick) (events : List Event) :
    untimed (e :: events) = e :: untimed events :=
  List.filter_cons_of_pos (decide_eq_true he)

theorem untimed_cons_tick (events : List Event) : untimed (.tick :: events) = untimed events :=
  List.filter_cons_of_neg (by decide)

/-! ## One event -/

/-- A tick leaves the draft as it is. -/
theorem draft_tick (s : Sequencer) : (s.step .tick).state.draft = s.draft := by
  have hrule := step_transition s .tick
  generalize s.step .tick = o at hrule ⊢
  cases hrule with
  | tick => rfl
  | idle => rfl

/-- **No rule but that of ticks looks at the place of playback.** A rule that applies in one state applies
in every state that differs from it in that place only, and comes to the same. -/
theorem Transition.moved {s : Sequencer} {e : Event} {o : Outcome} (h : Transition s e o)
    (he : e ≠ .tick) (position : Player.Position) :
    ∃ o', Transition { s with position } e o' ∧ o'.edit = o.edit := by
  cases h with
  | unknownCommand hm hb => exact ⟨_, .unknownCommand hm hb, rfl⟩
  | clear hm hb => exact ⟨_, .clear hm hb, rfl⟩
  | runOn hm hb => exact ⟨_, .runOn hm hb, rfl⟩
  | nothingToRun hm hb hempty => exact ⟨_, .nothingToRun hm hb hempty, rfl⟩
  | run hm hb hfull => exact ⟨_, .run hm hb hfull, rfl⟩
  | pause hm hb => exact ⟨_, .pause hm hb, rfl⟩
  | enterEdit hm hb => exact ⟨_, .enterEdit hm hb, rfl⟩
  | exitEdit hm => exact ⟨_, .exitEdit hm, rfl⟩
  | unknownOpcode hm hne hb => exact ⟨_, .unknownOpcode hm hne hb, rfl⟩
  | rejected hm hb hr => exact ⟨_, .rejected hm hb hr, rfl⟩
  | noRoom hm hb hr hover => exact ⟨_, .noRoom hm hb hr hover, rfl⟩
  | append hm hb hr hroom => exact ⟨_, .append hm hb hr hroom, rfl⟩
  | tick => exact absurd rfl he
  | idle => exact absurd rfl he
  | busy hm => exact ⟨_, .busy hm, rfl⟩
  | tooLong hm hlen => exact ⟨_, .tooLong hm hlen, rfl⟩
  | corrupt hm hlen hv => exact ⟨_, .corrupt hm hlen hv, rfl⟩
  | load hm hlen hv => exact ⟨_, .load hm hlen hv, rfl⟩
  | startEmpty hm hempty => exact ⟨_, .startEmpty hm hempty, rfl⟩
  | start hfull => exact ⟨_, .start hfull, rfl⟩

/-- States with the same draft differ in the place of playback only. -/
theorem eq_moved_of_draft_eq {s t : Sequencer} (h : s.draft = t.draft) :
    t = { s with position := t.position } := by
  cases s
  cases t
  injection h with hrules hmode hstore hcursor
  subst hrules hmode hstore hcursor
  rfl

/-- An event other than a tick comes to the same in states with the same draft. -/
theorem edit_eq_of_draft_eq {s t : Sequencer} (h : s.draft = t.draft) {e : Event} (he : e ≠ .tick) :
    (s.step e).edit = (t.step e).edit := by
  obtain ⟨o, hrule, hedit⟩ := (step_transition s e).moved he t.position
  rw [← eq_moved_of_draft_eq h] at hrule
  rw [hrule.step_eq, hedit]

/-! ## Runs -/

/-- **Ticks can be taken out.** By induction on the run: a tick keeps the draft, and the other events are
the same in both runs and meet the same draft. -/
theorem edits_untimed {s t : Sequencer} (h : s.draft = t.draft) (events : List Event) :
    s.edits events = t.edits (untimed events)
      ∧ (s.after events).draft = (t.after (untimed events)).draft := by
  induction events generalizing s t with
  | nil => exact ⟨rfl, h⟩
  | cons e events ih =>
    by_cases he : e = .tick
    · subst he
      rw [untimed_cons_tick]
      exact ih ((draft_tick s).trans h)
    · have hedit := edit_eq_of_draft_eq h he
      have hdraft : (s.step e).state.draft = (t.step e).state.draft := congrArg Edit.draft hedit
      obtain ⟨hrest, hlast⟩ := ih hdraft
      rw [untimed_cons_of_ne he, edits_cons_of_ne s he, edits_cons_of_ne t he, hedit, hrest]
      exact ⟨rfl, hlast⟩

end Sequencer

/-- **Ticks never influence editing.** From any state, two runs with the same events apart from ticks give
the same answers and drafts, event by event, and end with the same draft. -/
theorem editing_ignores_ticks (s : Sequencer) {run run' : List Sequencer.Event}
    (h : Sequencer.untimed run = Sequencer.untimed run') :
    s.edits run = s.edits run' ∧ (s.after run).draft = (s.after run').draft := by
  obtain ⟨hedits, hdraft⟩ := Sequencer.edits_untimed (s := s) rfl run
  obtain ⟨hedits', hdraft'⟩ := Sequencer.edits_untimed (s := s) rfl run'
  rw [hedits, hedits', hdraft, hdraft', h]
  exact ⟨rfl, rfl⟩

/-- Ticks that play a program and wait in it stand between a start, a refused load and an edit session with
an instruction for which there is no room, or all of them stand at the end. -/
theorem editing_ignores_interleaved_ticks :
    ∃ s, Sequencer.new { leds := 2, capacity := 7, code := Program.encode [.clear, .delay 3] } = .ok s
      ∧ Sequencer.untimed [.start, .tick, .tick, .load [1], .command 4 {}, .tick,
            .command 2 ⟨1, 9, 9, 9⟩, .command 4 ⟨1, 2, 3, 0⟩, .command 0 {}]
          = Sequencer.untimed [.start, .load [1], .command 4 {}, .command 2 ⟨1, 9, 9, 9⟩,
              .command 4 ⟨1, 2, 3, 0⟩, .command 0 {}, .tick]
      ∧ s.edits [.start, .tick, .tick, .load [1], .command 4 {}, .tick, .command 2 ⟨1, 9, 9, 9⟩,
            .command 4 ⟨1, 2, 3, 0⟩, .command 0 {}]
          = s.edits [.start, .load [1], .command 4 {}, .command 2 ⟨1, 9, 9, 9⟩,
              .command 4 ⟨1, 2, 3, 0⟩, .command 0 {}, .tick] := by
  have hnew := @new_encode { leds := 2, capacity := 7, code := Program.encode [.clear, .delay 3] }
    [.clear, .delay 3] rfl (by decide)
  exact ⟨_, hnew, by decide, (editing_ignores_ticks _ (by decide)).1⟩

end StripSequencer
