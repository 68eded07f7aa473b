import StripSequencer.Handlers
import StripSequencer.Proofs.JournalReplay
import StripSequencer.Proofs.Linearizability

/-!
# `StripSequencer.Proofs.JournalOrder` — the order of the journal when clients make requests at the same time

A handler has its command executed first and makes its entry later, so that another handler can overtake it: its
command is executed later, and its entry stands earlier. What each entry says is right all the same: it tells of its
own command in its turn among the executed ones. And entries of handlers that do not overlap are in order, so that
the journal replays if no two handlers do.

## Contents
- `Dispatch.Step.returned`, `Run.returns_mem`, `Run.call_mem`, `Run.stop_mem_of_returns`: what stages say of a trace.
- `workings`, `executed`, `recorded`: what a trace of handlers says of the worker, the commands and the entries.
- `Testifies`, `Books`: entries and what they tell, with a step lemma; `Run.books`: along a run.
- `Run.in_order`: handlers one of which begins after the entry of the other.
- `Separate`, `Run.prompt`: runs in which no two handlers overlap.
- `Accountable`, `journal_accountable`; `journal_overtaken`: a run in which the order is not kept.
-/

namespace StripSequencer

namespace Dispatch

variable {ι α : Type} [DecidableEq ι] {tasks : ι → Task α} {s : Sequencer} {trace : List (Event ι α)}
  {d d' : Dispatch ι α} {e : Event ι α} {c : ι}

/-! ## What the stage of a call says of the trace -/

/-- A call that has returned takes no further step. -/
theorem Step.returned {answer : Except Worker.Error α} (hstep : Step tasks d e d')
    (h : d.stage c = .returned answer) : d'.stage c = .returned answer := by
  by_cases hcaller : e.caller? = some c
  · cases hstep with
    | call hother | pass hother | refuse hother | submit hother | abandon hother | collect hother
    | withdraw hother =>
      obtain rfl := Option.some.inj hcaller
      rw [h] at hother
      cases hother
    | take | finish | reply | leave | stop => cases hcaller
  · rw [hstep.stage_of_caller_ne hcaller, h]

theorem Run.returns_mem {answer : Except Worker.Error α} (h : Run tasks { sequencer := s } trace d)
    (hc : d.stage c = .returned answer) : .returns c answer ∈ trace := by
  induction h with
  | nil => cases hc
  | @snoc trace d d' e run step ih =>
    rw [List.mem_append, List.mem_singleton]
    by_cases hcaller : e.caller? = some c
    · cases step with
      | refuse | abandon | collect | withdraw =>
        obtain rfl := Option.some.inj hcaller
        have hassign : Stage.returned _ = Stage.returned answer := (assign_self ..).symm.trans hc
        obtain rfl := Stage.returned.inj hassign
        exact .inr rfl
      | call | pass | submit =>
        obtain rfl := Option.some.inj hcaller
        cases (assign_self ..).symm.trans hc
      | take | finish | reply | leave | stop => cases hcaller
    · rw [step.stage_of_caller_ne hcaller] at hc
      exact .inl (ih hc)

theorem Run.call_mem (h : Run tasks { sequencer := s } trace d) (hc : d.stage c ≠ .idle) : .call c ∈ trace := by
  induction h with
  | nil => exact absurd rfl hc
  | @snoc trace d d' e run step ih =>
    rw [List.mem_append, List.mem_singleton]
    by_cases hidle : d.stage c = .idle
    · -- the step is the one with which the call begins
      by_cases hcaller : e.caller? = some c
      · cases step with
        | call =>
          obtain rfl := Option.some.inj hcaller
          exact .inr rfl
        | pass hother | refuse hother | submit hother | abandon hother | collect hother | withdraw hother =>
          obtain rfl := Option.some.inj hcaller
          rw [hidle] at hother
          cases hother
        | take | finish | reply | leave | stop => cases hcaller
      · rw [step.stage_of_caller_ne hcaller] at hc
        exact absurd hidle hc
    · exact .inl (ih hidle)

/-- Where the stop mark stands, somebody has set it. -/
theorem Run.stop_mem (h : Run tasks { sequencer := s } trace d) (hstopped : d.stopped = true) : .stop ∈ trace := by
  induction h with
  | nil => cases hstopped
  | snoc run step ih =>
    rw [List.mem_append, List.mem_singleton]
    cases step with
    | stop => exact .inr rfl
    | _ => exact .inl (ih hstopped)

/-- The stop error is returned after the stop only. -/
theorem Run.stop_mem_of_returns (h : Run tasks { sequencer := s } trace d)
    (hmem : .returns c (.error .stopped) ∈ trace) : .stop ∈ trace := by
  induction h with
  | nil => cases hmem
  | @snoc trace d d' e run step ih =>
    rw [List.mem_append, List.mem_singleton] at hmem ⊢
    rcases hmem with hmem | rfl
    · exact .inl (ih hmem)
    · generalize hanswer : (Except.error Worker.Error.stopped : Except Worker.Error α) = answer at step
      cases step with
      | refuse _ hstopped | abandon _ hstopped | withdraw _ hstopped => exact .inl (run.stop_mem hstopped)
      | @collect _ value =>
        cases value with
        | ok a => cases hanswer
        | error text => cases hanswer

/-- A task that was started belongs to a call that began. -/
theorem Run.call_mem_of_take (h : Run tasks { sequencer := s } trace d) (hmem : .take c ∈ trace) :
    .call c ∈ trace := by
  apply h.call_mem
  intro hidle
  have hsubmit := h.tracks.serves.submit_mem_of_take_mem hmem
  exact h.tracks.fresh.early c (by rw [hidle]; trivial) (mem_submitted.mpr hsubmit)

theorem Run.take_mem_of_finish (h : Run tasks { sequencer := s } trace d) (hmem : .finish c ∈ trace) :
    .take c ∈ trace := by
  rw [← mem_started, h.tracks.serves.current]
  exact List.mem_append_left _ (mem_finished.mpr hmem)

theorem Run.nodup_finished (h : Run tasks { sequencer := s } trace d) : (finished trace).Nodup := by
  have hstarted := h.tracks.nodup_started
  rw [h.tracks.serves.current] at hstarted
  exact hstarted.of_append_left

end Dispatch

namespace Handlers

open Dispatch (Answered)

variable {ι : Type}

/-! ## What a trace says -/

/-- The step of a caller or of the worker. -/
def Event.work? : Event ι → Option (Dispatch.Event ι (Mode × String))
  | .work e => some e
  | .record _ => none

/-- The handler that makes its entry. -/
def Event.records? : Event ι → Option ι
  | .work _ => none
  | .record c => some c

/-- The steps of the callers and of the worker, in order. -/
def workings (trace : List (Event ι)) : List (Dispatch.Event ι (Mode × String)) := trace.filterMap Event.work?

/-- The handlers whose commands were executed, in order. -/
def executed (trace : List (Event ι)) : List ι := Dispatch.finished (workings trace)

/-- The handlers that made their entries, in order. -/
def recorded (trace : List (Event ι)) : List ι := trace.filterMap Event.records?

section Trace

variable (trace more : List (Event ι))

theorem mem_workings {trace : List (Event ι)} {e : Dispatch.Event ι (Mode × String)} :
    e ∈ workings trace ↔ .work e ∈ trace :=
  Dispatch.mem_filterMap_iff (by intro e c; cases e <;> simp [Event.work?])

theorem mem_recorded {trace : List (Event ι)} {c : ι} : c ∈ recorded trace ↔ .record c ∈ trace :=
  Dispatch.mem_filterMap_iff (by intro e c; cases e <;> simp [Event.records?])

theorem workings_append : workings (trace ++ more) = workings trace ++ workings more := List.filterMap_append

theorem executed_append : executed (trace ++ more) = executed trace ++ executed more := by
  unfold executed Dispatch.finished
  rw [workings_append, List.filterMap_append]

theorem recorded_append : recorded (trace ++ more) = recorded trace ++ recorded more := List.filterMap_append

end Trace

/-- The command of a handler. -/
def command (commands : ι → UInt8 × Payload) (c : ι) : Sequencer.Event := .command (commands c).1 (commands c).2

variable {commands : ι → UInt8 × Payload} {s : Sequencer}

/-! ## What entries tell -/

/-- **An entry tells of the command of a handler** in its turn among the executed ones: the mode is the one that the
commands before it left, and the status is what it came to there. -/
structure Testifies (commands : ι → UInt8 × Payload) (s : Sequencer) (order : List ι) (c : ι) (e : Journal.Entry) :
    Prop where
  command : (e.command, e.payload) = commands c
  inTurn : ∃ before after, order = before ++ c :: after ∧
    e.mode = (s.after (before.map (Handlers.command commands))).mode.name ∧
    e.status = ((s.after (before.map (Handlers.command commands))).step (Handlers.command commands c)).answer.status

theorem Testifies.append {order : List ι} {c : ι} {e : Journal.Entry} (h : Testifies commands s order c e)
    (more : List ι) : Testifies commands s (order ++ more) c e := by
  obtain ⟨before, after, rfl, htold⟩ := h.inTurn
  exact ⟨h.command, before, after ++ more, by simp, htold⟩

/-- A worker that performs the tasks of commands in turn takes the steps of the commands. -/
theorem performAll_tasks (commands : ι → UInt8 × Payload) (s : Sequencer) (order : List ι) :
    (Worker.performAll { sequencer := s } (order.map (tasks commands))).1
      = { sequencer := s.after (order.map (command commands)) } := by
  induction order using List.reverseRecOn with
  | nil => rfl
  | append_singleton order c ih =>
    rw [List.map_append, List.map_append, List.map_singleton, List.map_singleton, Worker.performAll_snoc, ih,
      Sequencer.after_append]
    dsimp only
    rw [Worker.perform_of_serving rfl]
    unfold tasks
    rw [Service.commandTask_eq]
    rfl

/-- What a handler is told by the worker. -/
theorem answered_eq {order : List ι} {c : ι} {answer : Except Worker.Error (Mode × String)}
    (h : Answered (tasks commands) s order c answer) :
    ∃ before after, order = before ++ c :: after ∧
      answer = .ok ((s.after (before.map (command commands))).mode,
        ((s.after (before.map (command commands))).step (command commands c)).answer.status) := by
  obtain ⟨before, after, horder, rfl⟩ := h
  refine ⟨before, after, horder, ?_⟩
  rw [performAll_tasks, Worker.perform_of_serving rfl]
  unfold tasks
  rw [Service.commandTask_eq]
  rfl

variable {path : Text} {trace : List (Event ι)} {h h' : Handlers ι}

/-- The entries of a journal, with the handlers that made them. -/
structure Books (commands : ι → UInt8 × Payload) (s : Sequencer) (trace : List (Event ι)) (h : Handlers ι) :
    Prop where
  isOpen : h.journal.isOpen = true
  nodup : (recorded trace).Nodup
  done : ∀ c, h.done c = true ↔ c ∈ recorded trace
  told : ∀ c ∈ recorded trace, ∃ value, h.dispatch.stage c = .returned (.ok value)
  testified : List.Forall₂ (Testifies commands s (executed trace)) (recorded trace) h.journal.entries
  numbered : h.journal.entries.map (·.id) = List.range' 1 h.journal.entries.length

theorem Books.init : Books commands s [] (idle s path) where
  isOpen := rfl
  nodup := List.nodup_nil
  done c := by simp [idle, recorded]
  told c hc := absurd hc List.not_mem_nil
  testified := .nil
  numbered := rfl

variable [DecidableEq ι]

/-- The worker and its callers do not notice the journal. -/
theorem Run.dispatch (hrun : Run commands (idle s path) trace h) :
    Dispatch.Run (tasks commands) { sequencer := s } (workings trace) h.dispatch := by
  induction hrun with
  | nil => exact .nil
  | snoc run step ih =>
    rw [workings_append]
    cases step with
    | work step => exact ih.snoc step
    | record =>
      rw [show workings [Event.record _] = [] from rfl, List.append_nil]
      exact ih

/-- A handler that was told the mode and the status of its command was told those of its turn. -/
theorem Run.told (hrun : Run commands (idle s path) trace h) {c : ι} {mode : Mode} {status : String}
    (htold : h.dispatch.stage c = .returned (.ok (mode, status))) :
    Answered (tasks commands) s (executed trace) c (.ok (mode, status)) :=
  hrun.dispatch.tracks.honest.returned c _ (hrun.dispatch.returns_mem htold) (by rintro ⟨⟩)

namespace Books

/-- A step of a caller or of the worker leaves the entries as they are. -/
theorem work (hbooks : Books commands s trace h) {e : Dispatch.Event ι (Mode × String)}
    {d : Dispatch ι (Mode × String)} (hstep : Dispatch.Step (tasks commands) h.dispatch e d) :
    Books commands s (trace ++ [.work e]) { h with dispatch := d } := by
  have hrecorded : recorded (trace ++ [.work e]) = recorded trace := by
    rw [recorded_append]
    exact List.append_nil _
  refine ⟨hbooks.isOpen, ?_, ?_, ?_, ?_, hbooks.numbered⟩
  · rw [hrecorded]
    exact hbooks.nodup
  · rw [hrecorded]
    exact hbooks.done
  · intro c hc
    rw [hrecorded] at hc
    obtain ⟨value, hvalue⟩ := hbooks.told c hc
    exact ⟨value, hstep.returned hvalue⟩
  · rw [hrecorded, executed_append]
    exact hbooks.testified.imp fun c e hc => hc.append _

/-- A handler makes its entry: the first one of this handler, after all others. -/
theorem record (hbooks : Books commands s trace h) {c : ι} {mode : Mode} {status : String} {now : Int64} {j : Journal}
    (htold : h.dispatch.stage c = .returned (.ok (mode, status))) (hfirst : h.done c = false)
    (hanswered : Answered (tasks commands) s (executed trace) c (.ok (mode, status)))
    (hrecorded : h.journal.record now (commands c).1 (commands c).2 mode.name status = .ok j) :
    Books commands s (trace ++ [.record c]) { h with journal := j, done := Dispatch.assign h.done c true } := by
  have hnew : c ∉ recorded trace := by
    rw [← hbooks.done, hfirst]
    decide
  have hlast : recorded (trace ++ [.record c]) = recorded trace ++ [c] := recorded_append ..
  have hexecuted : executed (trace ++ [.record c]) = executed trace := by
    rw [executed_append]
    exact List.append_nil _
  obtain ⟨entry, hentry⟩ : ∃ entry : Journal.Entry, entry = ⟨h.journal.entries.length + 1, now, (commands c).1,
    (commands c).2, mode.name, status⟩ := ⟨_, rfl⟩
  have hj : j = { h.journal with entries := h.journal.entries ++ [entry] } := by
    rw [Journal.record_of_open hbooks.isOpen] at hrecorded
    rw [hentry]
    exact (Except.ok.inj hrecorded).symm
  have htestifies : Testifies commands s (executed trace) c entry := by
    obtain ⟨before, after, horder, hvalue⟩ := answered_eq hanswered
    obtain ⟨rfl, rfl⟩ := Prod.mk.inj (Except.ok.inj hvalue)
    rw [hentry]
    exact ⟨rfl, before, after, horder, rfl, rfl⟩
  subst hj
  refine ⟨hbooks.isOpen, ?_, ?_, ?_, ?_, ?_⟩
  · rw [hlast]
    exact hbooks.nodup.append (List.nodup_singleton c) (by simpa using hnew)
  · intro x
    rw [hlast, List.mem_append, List.mem_singleton, ← hbooks.done]
    show Dispatch.assign h.done c true x = true ↔ _
    by_cases hx : x = c
    · subst hx
      simp
    · rw [Dispatch.assign_of_ne hx]
      exact ⟨.inl, fun hor => hor.resolve_right hx⟩
  · intro x hx
    rw [hlast, List.mem_append, List.mem_singleton] at hx
    rcases hx with hx | rfl
    · exact hbooks.told x hx
    · exact ⟨_, htold⟩
  · rw [hlast, hexecuted]
    exact List.rel_append hbooks.testified (.cons htestifies .nil)
  · show (h.journal.entries ++ [entry]).map (·.id) = _
    rw [List.map_append, hbooks.numbered, List.map_singleton, List.length_append, List.length_singleton,
      List.range'_concat, hentry]
    simp [Nat.add_comm]

end Books

/-- **Along every run.** -/
theorem Run.books (hrun : Run commands (idle s path) trace h) : Books commands s trace h := by
  induction hrun with
  | nil => exact Books.init
  | snoc run step ih =>
    cases step with
    | work step => exact ih.work step
    | record now htold hfirst hrecorded => exact ih.record htold hfirst (run.told htold) hrecorded

/-! ## Handlers that do not overlap -/

/-- One handler comes before another one, if that one is there at all. -/
def Precedes (order : List ι) (c e : ι) : Prop := ∀ before after, order = before ++ e :: after → c ∈ before

omit [DecidableEq ι] in
theorem precedes_of_append {early late : List ι} {c e : ι} (hc : c ∈ early) (he : e ∉ early) :
    Precedes (early ++ late) c e := by
  intro before after horder
  rcases List.append_eq_append_iff.mp horder with ⟨mid, rfl, -⟩ | ⟨mid, rfl, hmid⟩
  · exact List.mem_append_left mid hc
  · -- the other one would have to be among the early ones
    cases mid with
    | nil => simpa using hc
    | cons x mid =>
      obtain ⟨rfl, -⟩ := List.cons.inj hmid
      exact absurd (by simp) he

omit [DecidableEq ι] in
/-- An event of a list that is one longer is the last one, or stands in the list. -/
theorem split_snoc {before after : List (Event ι)} {x y : Event ι} (h : trace ++ [x] = before ++ y :: after) :
    (trace = before ∧ x = y) ∨ ∃ rest, trace = before ++ y :: rest := by
  rcases List.eq_nil_or_concat after with rfl | ⟨rest, last, rfl⟩
  · obtain ⟨htrace, hlast⟩ := List.append_inj' h rfl
    exact .inl ⟨htrace, List.singleton_inj.mp hlast⟩
  · have hsplit : trace ++ [x] = (before ++ y :: rest) ++ [last] := by simpa using h
    exact .inr ⟨rest, (List.append_inj' hsplit rfl).1⟩

/-- A run leads up to each of its events. -/
theorem Run.split {start : Handlers ι} {x : Event ι} {before after : List (Event ι)}
    (hrun : Run commands start trace h) (htrace : trace = before ++ x :: after) :
    ∃ h₁ h₂, Run commands start before h₁ ∧ Step commands h₁ x h₂ := by
  induction hrun generalizing after with
  | nil => simp at htrace
  | @snoc trace h h' last run step ih =>
    rcases split_snoc htrace with ⟨rfl, rfl⟩ | ⟨rest, hrest⟩
    · exact ⟨h, h', run, step⟩
    · exact ih hrest

/-- A handler that has not begun has made no entry. -/
theorem Run.not_recorded_of_call (hrun : Run commands (idle s path) trace h) {e : ι} {before after : List (Event ι)}
    (htrace : trace = before ++ .work (.call e) :: after) : e ∉ recorded before := by
  obtain ⟨h₁, h₂, hbefore, hstep⟩ := hrun.split htrace
  intro hmem
  obtain ⟨value, hvalue⟩ := hbefore.books.told e hmem
  cases hstep with
  | work step =>
    cases step with
    | call hidle =>
      rw [hidle] at hvalue
      cases hvalue

/-- **Handlers one of which begins after the entry of the other** are in the same order in both. -/
theorem Run.in_order (hrun : Run commands (idle s path) trace h) {c e : ι} {before after : List (Event ι)}
    (htrace : trace = before ++ .record c :: after) (hcall : .work (.call e) ∈ after) :
    Precedes (executed trace) c e ∧ Precedes (recorded trace) c e := by
  obtain ⟨mid, rest, rfl⟩ := List.append_of_mem hcall
  have hsplit : trace = (before ++ .record c :: mid) ++ .work (.call e) :: rest := by simpa using htrace
  obtain ⟨h₁, h₂, hearly, hstep⟩ := hrun.split htrace
  constructor
  · -- the command was executed before its entry was made, and the other one was not submitted by then
    cases hstep with
    | record now htold =>
      have hexecuted : c ∈ executed before := (hearly.told htold).mem
      have hother : e ∉ executed before := by
        intro hmem
        have htake := hearly.dispatch.take_mem_of_finish (Dispatch.mem_finished.mp hmem)
        have hsubmit := hearly.dispatch.tracks.serves.submit_mem_of_take_mem htake
        have hworkings : workings trace = workings (before ++ .record c :: mid) ++ .call e :: workings rest := by
          rw [hsplit, workings_append]
          rfl
        apply hrun.dispatch.submit_not_mem hworkings
        rw [workings_append]
        exact List.mem_append_left _ hsubmit
      rw [htrace, executed_append]
      exact precedes_of_append hexecuted hother
  · rw [hsplit, recorded_append]
    refine precedes_of_append ?_ (hrun.not_recorded_of_call hsplit)
    rw [mem_recorded]
    simp

/-! ## Runs without overlaps -/

/-- The handler is through: it has made its entry, or was told of a failure. -/
def Through (trace : List (Event ι)) (c : ι) : Prop :=
  .record c ∈ trace ∨ ∃ error, .work (.returns c (.error error)) ∈ trace

/-- No two handlers overlap: when one of them begins, those that have begun are through. -/
def Separate (trace : List (Event ι)) : Prop :=
  ∀ before after e, trace = before ++ .work (.call e) :: after →
    ∀ c, .work (.call c) ∈ before → Through before c

omit [DecidableEq ι] in
theorem separate_snoc {x : Event ι} : Separate (trace ++ [x]) ↔
    Separate trace ∧ ∀ e, x = .work (.call e) → ∀ c, .work (.call c) ∈ trace → Through trace c := by
  constructor
  · intro hseparate
    refine ⟨?_, ?_⟩
    · intro before after e htrace
      exact hseparate before (after ++ [x]) e (by rw [htrace]; simp)
    · rintro e rfl
      exact hseparate trace [] e rfl
  · rintro ⟨hseparate, hlast⟩ before after e htrace
    rcases split_snoc htrace with ⟨rfl, hx⟩ | ⟨rest, hrest⟩
    · exact hlast e hx
    · exact hseparate before rest e hrest

omit [DecidableEq ι] in
/-- Of two handlers, one is through before the other one begins. -/
theorem Separate.through_before (hseparate : Separate trace) {c e : ι} (hne : c ≠ e)
    (hc : .work (.call c) ∈ trace) (he : .work (.call e) ∈ trace) :
    (∃ before after, trace = before ++ .work (.call e) :: after ∧ Through before c)
      ∨ ∃ before after, trace = before ++ .work (.call c) :: after ∧ Through before e := by
  obtain ⟨before, after, htrace⟩ := List.append_of_mem he
  have hmem := hc
  rw [htrace, List.mem_append, List.mem_cons] at hmem
  rcases hmem with hmem | heq | hmem
  · exact .inl ⟨before, after, htrace, hseparate before after e htrace c hmem⟩
  · cases heq
    exact absurd rfl hne
  · obtain ⟨mid, rest, rfl⟩ := List.append_of_mem hmem
    have hsplit : trace = (before ++ .work (.call e) :: mid) ++ .work (.call c) :: rest := by
      rw [htrace]
      simp
    exact .inr ⟨_, rest, hsplit, hseparate _ rest c hsplit e (by simp)⟩

/-- Once a handler is through without an entry, the worker was stopped, and no handler that begins later has its
command executed. -/
theorem Run.recorded_of_through (hrun : Run commands (idle s path) trace h) {c e : ι}
    {before after : List (Event ι)} (htrace : trace = before ++ .work (.call e) :: after)
    (hthrough : Through before c) (htake : .take e ∈ workings trace) : c ∈ recorded trace := by
  rcases hthrough with hrecord | ⟨error, hreturns⟩
  · rw [mem_recorded, htrace]
    exact List.mem_append_left _ hrecord
  · have hworkings : workings trace = workings before ++ .call e :: workings after := by
      rw [htrace, workings_append]
      rfl
    obtain ⟨h₁, h₂, hbefore, -⟩ := hrun.split htrace
    have hmem := mem_workings.mpr hreturns
    have hstopped : error = .stopped := by
      by_contra hne
      have hanswered := hbefore.dispatch.tracks.honest.returned c _ hmem (by simpa using hne)
      obtain ⟨_, _, _, hanswer⟩ := answered_eq hanswered
      cases hanswer
    subst hstopped
    have hlate := hrun.dispatch.late hworkings (hbefore.dispatch.stop_mem_of_returns hmem)
    exact absurd htake (hrun.dispatch.take_not_mem_of_late hworkings hlate)

/-- What was recorded was executed. -/
theorem Run.executed_of_recorded (hrun : Run commands (idle s path) trace h) {c : ι} (hc : c ∈ recorded trace) :
    c ∈ executed trace := by
  obtain ⟨value, hvalue⟩ := hrun.books.told c hc
  exact (hrun.told hvalue).mem

/-- Without overlaps, the worker is at a command only when those before it are recorded. -/
theorem Run.recorded_of_running (hrun : Run commands (idle s path) trace h) (hseparate : Separate trace) {c e : ι}
    (hrunning : h.dispatch.activity = .running e) (hc : c ∈ executed trace) : c ∈ recorded trace := by
  have hstarted := hrun.dispatch.tracks.nodup_started
  have hcurrent : Dispatch.started (workings trace) = executed trace ++ [e] := by
    have hserved := hrun.dispatch.tracks.serves.current
    rwa [hrunning] at hserved
  have hnew : e ∉ executed trace := by
    rw [hcurrent] at hstarted
    intro hmem
    exact List.disjoint_of_nodup_append hstarted hmem (List.mem_singleton_self e)
  have hne : c ≠ e := fun heq => hnew (heq ▸ hc)
  have htakec : .take c ∈ workings trace := hrun.dispatch.take_mem_of_finish (Dispatch.mem_finished.mp hc)
  have htakee : .take e ∈ workings trace := by
    rw [← Dispatch.mem_started, hcurrent]
    simp
  have hcallc := mem_workings.mp (hrun.dispatch.call_mem_of_take htakec)
  have hcalle := mem_workings.mp (hrun.dispatch.call_mem_of_take htakee)
  rcases hseparate.through_before hne hcallc hcalle with ⟨before, after, htrace, hthrough⟩ |
    ⟨before, after, htrace, hthrough⟩
  · exact hrun.recorded_of_through htrace hthrough htakee
  · -- the command that is being executed would be recorded already
    exact absurd (hrun.executed_of_recorded (hrun.recorded_of_through htrace hthrough htakec)) hnew

/-- **Without overlaps every entry is made before the next command is executed.** By induction on the run: at most
the last of the executed commands has its entry missing, and the next one ends only after that entry. -/
theorem Run.prompt (hrun : Run commands (idle s path) trace h) (hseparate : Separate trace) :
    ∃ pending, executed trace = recorded trace ++ pending ∧ pending.length ≤ 1 := by
  induction hrun with
  | nil => exact ⟨[], rfl, Nat.zero_le 1⟩
  | @snoc trace h h' x run step ih =>
    have hbefore : Separate trace := (separate_snoc.mp hseparate).1
    obtain ⟨pending, hpending, hlength⟩ := ih hbefore
    rw [executed_append, recorded_append]
    cases step with
    | @record c _ _ _ now htold hfirst =>
      have hnew : c ∉ recorded trace := by
        rw [← run.books.done, hfirst]
        decide
      have hmem : c ∈ executed trace := (run.told htold).mem
      rw [hpending, List.mem_append] at hmem
      have hlast : pending = [c] := by
        match pending, hlength, hmem.resolve_left hnew with
        | [x], _, hc => rw [List.mem_singleton.mp hc]
      refine ⟨[], ?_, Nat.zero_le 1⟩
      rw [hpending, hlast, List.append_nil]
      exact List.append_nil _
    | @work e d step =>
      cases step with
      | @finish c hrunning =>
        have hnone : pending = [] := by
          rw [List.eq_nil_iff_forall_not_mem]
          intro x hx
          have hnodup : (executed trace).Nodup := run.dispatch.nodup_finished
          have hexecuted : x ∈ executed trace := by
            rw [hpending]
            exact List.mem_append_right _ hx
          have hrecorded := run.recorded_of_running hbefore hrunning hexecuted
          rw [hpending] at hnodup
          exact List.disjoint_of_nodup_append hnodup hrecorded hx
        refine ⟨[c], ?_, Nat.le_refl 1⟩
        rw [hpending, hnone, List.append_nil]
        exact congrArg (· ++ [c]) (List.append_nil _).symm
      | _ =>
        refine ⟨pending, ?_, hlength⟩
        rw [hpending]
        exact (List.append_nil _).trans (congrArg (· ++ pending) (List.append_nil _).symm)

/-! ## Replaying -/

omit [DecidableEq ι] in
/-- Entries that tell of the commands in their order replay. By induction on the commands that are left: those before
them have led to the state that the replay has come to. -/
theorem replay_of_testifies {before left pending : List ι} {entries : List Journal.Entry}
    (hnodup : (before ++ left ++ pending).Nodup)
    (htestified : List.Forall₂ (Testifies commands s (before ++ left ++ pending)) left entries) :
    (s.after (before.map (command commands))).replay entries = entries.map fun e => (e.mode, e.status) := by
  induction left generalizing before entries with
  | nil =>
    cases htestified
    rfl
  | cons c left ih =>
    cases htestified with
    | @cons _ e _ entries he hentries =>
      have hmove : before ++ c :: left ++ pending = (before ++ [c]) ++ left ++ pending := by simp
      obtain ⟨earlier, later, horder, hmode, hstatus⟩ := he.inTurn
      -- the turn of the command is where it stands in the list
      have hsame : earlier = before := by
        have hsplit : before ++ c :: (left ++ pending) = earlier ++ c :: later := by simpa using horder
        have hbefore : c ∉ before := by
          intro hmem
          rw [List.append_assoc] at hnodup
          exact List.disjoint_of_nodup_append hnodup hmem (by simp)
        have hleft : c ∉ left ++ pending := by
          rw [List.append_assoc] at hnodup
          exact (List.nodup_cons.mp hnodup.of_append_right).1
        exact ((List.append_cons_inj_of_notMem hbefore hleft).mp hsplit).1.symm
      subst hsame
      have hevent : e.event = command commands c := by
        unfold Journal.Entry.event command
        rw [← he.command]
      rw [hmove] at hnodup hentries
      have hrest := ih hnodup hentries
      rw [List.map_append, Sequencer.after_append] at hrest
      rw [Sequencer.replay, List.map_cons, hevent, hmode, hstatus]
      exact congrArg _ hrest

/-! ## The journal -/

/-- **What the journal says,** after handlers took their steps in any order. -/
structure Accountable (commands : ι → UInt8 × Payload) (s : Sequencer) (trace : List (Event ι)) (h : Handlers ι) :
    Prop where
  /-- No handler makes two entries. -/
  once : (recorded trace).Nodup
  /-- The entries, in the order of their numbers, tell of the commands of the handlers that made them. -/
  testified : List.Forall₂ (Testifies commands s (executed trace)) (recorded trace) h.journal.entries
  numbered : h.journal.entries.map (·.id) = List.range' 1 h.journal.entries.length
  /-- A handler that was told what its command came to has made its entry, or can make it. -/
  complete : ∀ c value, h.dispatch.stage c = .returned (.ok value) →
    c ∈ recorded trace ∨ ∃ h', Step commands h (.record c) h'
  /-- If one handler makes its entry before another one begins, its command is executed first, too, and its entry
  stands first. -/
  ordered : ∀ c e before after, trace = before ++ .record c :: after → .work (.call e) ∈ after →
    Precedes (executed trace) c e ∧ Precedes (recorded trace) c e
  /-- If no two handlers overlap, the entries are in the order of execution, none but the last one is missing, and
  each has the mode and the status that come of replaying the entries before it. -/
  replays : Separate trace → (∃ pending, executed trace = recorded trace ++ pending ∧ pending.length ≤ 1) ∧
    s.replay h.journal.entries = h.journal.entries.map fun e => (e.mode, e.status)

/-- **The journal is accountable.** Along every run, from handlers that have not begun and a new journal. -/
theorem journal_accountable (hrun : Run commands (idle s path) trace h) : Accountable commands s trace h := by
  have hbooks := hrun.books
  refine ⟨hbooks.nodup, hbooks.testified, hbooks.numbered, ?_, ?_, ?_⟩
  · rintro c ⟨mode, status⟩ htold
    by_cases hdone : h.done c = true
    · exact .inl ((hbooks.done c).mp hdone)
    · have hrecorded := Journal.record_of_open hbooks.isOpen 0 (commands c).1 (commands c).2 mode.name status
      exact .inr ⟨_, .record 0 htold (by simpa using hdone) hrecorded⟩
  · intro c e before after htrace hcall
    exact hrun.in_order htrace hcall
  · intro hseparate
    obtain ⟨pending, hpending, hlength⟩ := hrun.prompt hseparate
    have hnodup : (executed trace).Nodup := hrun.dispatch.nodup_finished
    have htestified := hbooks.testified
    rw [hpending] at hnodup htestified
    exact ⟨⟨pending, hpending, hlength⟩, @replay_of_testifies _ _ s [] _ _ _ hnodup htestified⟩

/-- One client begins to edit, and only after its entry another one appends an instruction. -/
theorem journal_accountable_for_separate_edits :
    ∃ (s : Sequencer) (commands : Nat → UInt8 × Payload) (trace : List (Event Nat)) (h : Handlers Nat),
      Sequencer.new { leds := 1, capacity := 8, code := [] } = .ok s ∧
      Run commands (idle s "journal.db") trace h ∧ Separate trace ∧ recorded trace = [0, 1] ∧
      h.journal.entries.map (fun e => (e.mode, e.status)) = [("paused", "ok"), ("command-entry", "ok")] ∧
      Accountable commands s trace h := by
  let s : Sequencer := ⟨⟨1, .skip, 4096⟩, Store.empty 8, .paused, 0, ⟨0, 0⟩⟩
  have hnew : Sequencer.new { leds := 1, capacity := 8, code := [] } = .ok s :=
    @new_encode { leds := 1, capacity := 8, code := [] } [] rfl (by decide)
  let commands : Nat → UInt8 × Payload := fun c => if c = 0 then (4, {}) else (1, {})
  have hfirst := (((((((@Run.nil _ _ commands (idle s "journal.db")).snoc (.work (.call (c := 0) rfl))).snoc
    (.work (.pass (c := 0) rfl rfl))).snoc (.work (.submit (c := 0) rfl (by decide)))).snoc
    (.work (.take rfl rfl))).snoc (.work (.finish rfl))).snoc (.work (.reply rfl rfl))).snoc
    (.work (.collect (c := 0) rfl rfl))
  have hsecond := ((((((((hfirst.snoc (.record (c := 0) 0 rfl rfl rfl)).snoc
    (.work (.call (c := 1) rfl))).snoc (.work (.pass (c := 1) rfl rfl))).snoc
    (.work (.submit (c := 1) rfl (by decide)))).snoc (.work (.take rfl rfl))).snoc (.work (.finish rfl))).snoc
    (.work (.reply rfl rfl))).snoc (.work (.collect (c := 1) rfl rfl)))
  have hrun := hsecond.snoc (.record (c := 1) 0 rfl rfl rfl)
  refine ⟨s, commands, _, _, hnew, hrun, ?_, rfl, rfl, journal_accountable hrun⟩
  simp only [separate_snoc]
  simp [Separate, Through]

/-- **The journal can be overtaken.** The command that begins an edit is executed first, and the one that appends an
instruction second, but the second handler makes its entry before the first one does. Replayed in the order of the
journal, the command of the first entry does not meet the mode that stands there: it is taken for another one. -/
theorem journal_overtaken :
    ∃ (s : Sequencer) (commands : Nat → UInt8 × Payload) (trace : List (Event Nat)) (h : Handlers Nat),
      Sequencer.new { leds := 1, capacity := 8, code := [] } = .ok s ∧
      Run commands (idle s "journal.db") trace h ∧ executed trace = [0, 1] ∧ recorded trace = [1, 0] ∧
      h.journal.entries.map (·.mode) = ["command-entry", "paused"] ∧
      (s.replay h.journal.entries).map Prod.fst = ["paused", "paused"] := by
  let s : Sequencer := ⟨⟨1, .skip, 4096⟩, Store.empty 8, .paused, 0, ⟨0, 0⟩⟩
  have hnew : Sequencer.new { leds := 1, capacity := 8, code := [] } = .ok s :=
    @new_encode { leds := 1, capacity := 8, code := [] } [] rfl (by decide)
  let commands : Nat → UInt8 × Payload := fun c => if c = 0 then (4, {}) else (1, {})
  have hfirst := (((((((@Run.nil _ _ commands (idle s "journal.db")).snoc (.work (.call (c := 0) rfl))).snoc
    (.work (.pass (c := 0) rfl rfl))).snoc (.work (.submit (c := 0) rfl (by decide)))).snoc
    (.work (.take rfl rfl))).snoc (.work (.finish rfl))).snoc (.work (.reply rfl rfl))).snoc
    (.work (.collect (c := 0) rfl rfl))
  have hsecond := ((((((hfirst.snoc (.work (.call (c := 1) rfl))).snoc (.work (.pass (c := 1) rfl rfl))).snoc
    (.work (.submit (c := 1) rfl (by decide)))).snoc (.work (.take rfl rfl))).snoc (.work (.finish rfl))).snoc
    (.work (.reply rfl rfl))).snoc (.work (.collect (c := 1) rfl rfl))
  have hrun := (hsecond.snoc (.record (c := 1) 0 rfl rfl rfl)).snoc
    (.record (c := 0) 0 rfl rfl rfl)
  exact ⟨s, commands, _, _, hnew, hrun, rfl, rfl, rfl, rfl⟩

end Handlers

end StripSequencer
