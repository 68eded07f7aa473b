import StripSequencer.Proofs.InPlace

/-!
# `StripSequencer.Proofs.Runs` — runs of a sequencer and the states that they reach

A run is a list of events. Whether an event is allowed may depend on the state that it meets, so the
conditions on runs are checked along the run.

## Contents
- `Sequencer.Along`: every event of a run is allowed where it happens.
- `Sequencer.Orderly`: playback is never started out of command entry.
- `Sequencer.outcomes`, `Sequencer.answers`, `Sequencer.callsOf`: what a run brings about.
- `Sequencer.Reached`: the states of orderly runs of new sequencers.
-/

namespace StripSequencer.Sequencer

/-! ## Runs -/

@[simp] theorem after_cons (s : Sequencer) (e : Event) (events : List Event) :
    s.after (e :: events) = (s.step e).state.after events := rfl

@[simp] theorem after_append (s : Sequencer) (events more : List Event) :
    s.after (events ++ more) = (s.after events).after more :=
  List.foldl_append

/-- The outcomes of a run, one for each event. -/
def outcomes (s : Sequencer) : List Event → List Outcome
  | [] => []
  | e :: events => s.step e :: outcomes (s.step e).state events

/-- The answers of a run. -/
def answers (s : Sequencer) (events : List Event) : List Answer := (s.outcomes events).map (·.answer)

@[simp] theorem answers_nil (s : Sequencer) : s.answers [] = [] := rfl

@[simp] theorem answers_cons (s : Sequencer) (e : Event) (events : List Event) :
    s.answers (e :: events) = (s.step e).answer :: (s.step e).state.answers events := rfl

theorem answers_append (s : Sequencer) (events more : List Event) :
    s.answers (events ++ more) = s.answers events ++ (s.after events).answers more := by
  induction events generalizing s with
  | nil => rfl
  | cons e events ih => simp [ih]

/-- The answer to an event is given in the state that the events before it lead to. -/
theorem getElem?_answers (s : Sequencer) (events : List Event) (k : Nat) :
    (s.answers events)[k]? = events[k]?.map fun e => ((s.after (events.take k)).step e).answer := by
  induction events generalizing s k with
  | nil => rfl
  | cons e events ih =>
    cases k with
    | zero => rfl
    | succ k => exact ih (s.step e).state k

theorem answers_take (s : Sequencer) (events : List Event) (k : Nat) :
    s.answers (events.take k) = (s.answers events).take k := by
  induction events generalizing s k with
  | nil => simp
  | cons e events ih =>
    cases k with
    | zero => rfl
    | succ k => simp [ih]

/-- The calls that a run makes on the strip. -/
def callsOf (s : Sequencer) (events : List Event) : List Strip.Call :=
  (s.outcomes events).flatMap fun o => o.calls.toList

/-- Every event of a run is allowed in the state that it meets. -/
def Along (allowed : Sequencer → Event → Prop) (s : Sequencer) : List Event → Prop
  | [] => True
  | e :: events => allowed s e ∧ Along allowed (s.step e).state events

instance (allowed : Sequencer → Event → Prop) [∀ s e, Decidable (allowed s e)] (s : Sequencer)
    (events : List Event) : Decidable (Along allowed s events) :=
  match events with
  | [] => .isTrue trivial
  | e :: events =>
    have := instDecidableAlong allowed (s.step e).state events
    inferInstanceAs (Decidable (allowed s e ∧ Along allowed (s.step e).state events))

theorem Along.append {allowed : Sequencer → Event → Prop} {s : Sequencer} {events more : List Event}
    (h : Along allowed s events) (h' : Along allowed (s.after events) more) :
    Along allowed s (events ++ more) := by
  induction events generalizing s with
  | nil => exact h'
  | cons e events ih => exact ⟨h.1, ih h.2 h'⟩

theorem Along.take {allowed : Sequencer → Event → Prop} {s : Sequencer} {events : List Event}
    (h : Along allowed s events) (k : Nat) : Along allowed s (events.take k) := by
  induction events generalizing s k with
  | nil => simpa using h
  | cons e events ih =>
    cases k with
    | zero => trivial
    | succ k => exact ⟨h.1, ih h.2 k⟩

/-! ## Orderly runs -/

/-- An event keeps to the order of use: playback is not started out of command entry. -/
def Admits (s : Sequencer) (e : Event) : Prop := e = .start → s.mode ≠ .commandEntry

instance (s : Sequencer) (e : Event) : Decidable (s.Admits e) :=
  inferInstanceAs (Decidable (e = .start → s.mode ≠ .commandEntry))

/-- A run that keeps to the order of use. -/
def Orderly (s : Sequencer) (events : List Event) : Prop := Along Admits s events

instance (s : Sequencer) (events : List Event) : Decidable (s.Orderly events) :=
  inferInstanceAs (Decidable (Along Admits s events))

/-- The states that orderly runs of new sequencers reach. -/
def Reached (s : Sequencer) : Prop :=
  ∃ setup first events, new setup = .ok first ∧ first.Orderly events ∧ first.after events = s

theorem Reached.of_new {setup : Setup} {s : Sequencer} (h : new setup = .ok s) : Reached s :=
  ⟨setup, s, [], h, trivial, rfl⟩

/-- An orderly run of a reached state reaches another. -/
theorem Reached.after {s : Sequencer} (h : Reached s) {events : List Event} (ho : s.Orderly events) :
    Reached (s.after events) := by
  obtain ⟨setup, first, before, hnew, hbefore, rfl⟩ := h
  exact ⟨setup, first, before ++ events, hnew, hbefore.append ho, after_append _ _ _⟩

/-! ## One step -/

section Operations

variable {s s' : Sequencer} {calls : Array Strip.Call} {w : Work} {b : UInt8} {payload : Payload} {code : List UInt8} {why : Refusal}

theorem step_command_ok (h : InPlace.handle b payload ⟨s, #[]⟩ = .ok () ⟨s', calls⟩) :
    s.step (.command b payload) = ⟨s', .done, calls⟩ :=
  settle_of_ok h

theorem step_command_error (h : InPlace.handle b payload ⟨s, #[]⟩ = .error why w) :
    s.step (.command b payload) = ⟨s, .refused why, #[]⟩ :=
  settle_of_error (InPlace.traceless_handle b payload) h

theorem step_load_ok (h : InPlace.load code ⟨s, #[]⟩ = .ok () ⟨s', calls⟩) :
    s.step (.load code) = ⟨s', .done, calls⟩ :=
  settle_of_ok h

theorem step_load_error (h : InPlace.load code ⟨s, #[]⟩ = .error why w) :
    s.step (.load code) = ⟨s, .refused why, #[]⟩ :=
  settle_of_error (InPlace.traceless_load code) h

theorem step_start_ok (h : InPlace.run ⟨s, #[.clear]⟩ = .ok () ⟨s', calls⟩) :
    s.step .start = ⟨s', .done, calls⟩ := by
  unfold step start
  rw [h]

theorem step_start_error (h : InPlace.run ⟨s, #[.clear]⟩ = .error why w) :
    s.step .start = ⟨s, .done, #[.clear]⟩ := by
  unfold step start
  rw [h, InPlace.traceless_run _ _ _ h]

end Operations

theorem step_tick_running {s : Sequencer} (h : s.mode = .running) :
    s.step .tick = ⟨{ s with position := (Player.tick s.rules s.store.code s.position).position },
      .ticked (Player.tick s.rules s.store.code s.position).report,
      (Player.tick s.rules s.store.code s.position).calls⟩ := by
  unfold step tick
  rw [if_pos h]

theorem step_tick_idle {s : Sequencer} (h : s.mode ≠ .running) :
    s.step .tick = ⟨s, .ticked {}, #[]⟩ := by
  unfold step tick
  rw [if_neg h]

/-- A command is done or refused. -/
theorem answer_command (s : Sequencer) (b : UInt8) (payload : Payload) :
    (s.step (.command b payload)).answer = .done
      ∨ ∃ why, (s.step (.command b payload)).answer = .refused why :=
  answer_settle (InPlace.handle b payload) s

/-- A refused event leaves the state as it is and makes no call. -/
theorem step_of_refused {s : Sequencer} {e : Event} {why : Refusal}
    (h : (s.step e).answer = .refused why) : s.step e = ⟨s, .refused why, #[]⟩ := by
  cases e with
  | command b payload => exact settle_of_refused (InPlace.traceless_handle b payload) h
  | tick => cases h
  | load code => exact settle_of_refused (InPlace.traceless_load code) h
  | start => cases h

end StripSequencer.Sequencer
