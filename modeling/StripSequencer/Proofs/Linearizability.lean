import Mathlib.Data.List.Nodup
import StripSequencer.Dispatch

/-!
# `StripSequencer.Proofs.Linearizability` — concurrent calls of a worker are answered as if made in turn

Callers, the worker and whoever stops it take their steps in any order. Still, the tasks of the calls run one
at a time, each at most once, on the state that the tasks before left, and a call that returns anything but the
stop error returns what its own task came to. So the answers are those that a worker gives which performs the
tasks in the order in which they ran, and that order keeps to the order of calls that do not overlap.

## Contents
- `submitted`, `started`, `finished`, `executions`: what a trace says of the tasks.
- `Worker.performAll`: tasks in turn; `Answered`: what a task comes to in its turn.
- `Serves`, `Fresh`, `Honest`: what a trace says of the worker, the calls and the replies in the state that it
  leads to, each with its step lemma; `Tracks`, `Run.tracks`: all of it, along a run.
- `Late`, `Run.late`: calls that begin after the worker was told to stop.
- `Run.answered_once`, `Run.in_order`: calls that return a value or the failure of their task.
- `Linearizable`, `worker_linearizable`.
-/

namespace StripSequencer

/-- A worker after tasks that it performed in turn, and the calls that they made on the strip. -/
def Worker.performAll {α : Type} (w : Worker) (tasks : List (Task α)) : Worker × Array Strip.Call :=
  tasks.foldl (fun (w, calls) task => ((w.perform task).worker, calls ++ (w.perform task).calls)) (w, #[])

/-- Performing one more task. -/
theorem Worker.performAll_snoc {α : Type} (w : Worker) (done : List (Task α)) (task : Task α) :
    w.performAll (done ++ [task])
      = (((w.performAll done).1.perform task).worker,
          (w.performAll done).2 ++ ((w.performAll done).1.perform task).calls) := by
  unfold performAll
  rw [List.foldl_append]
  rfl

namespace Dispatch

variable {ι α : Type}

/-! ## What a trace says of the tasks -/

/-- The call that submits its request. -/
def Event.submits? : Event ι α → Option ι
  | .submit c => some c
  | _ => none

/-- The call whose task starts. -/
def Event.takes? : Event ι α → Option ι
  | .take c => some c
  | _ => none

/-- The call whose task ends. -/
def Event.finishes? : Event ι α → Option ι
  | .finish c => some c
  | _ => none

/-- The call that takes a step of its own. -/
def Event.caller? : Event ι α → Option ι
  | .call c | .pass c | .submit c | .returns c _ => some c
  | .take _ | .finish _ | .reply _ | .stop | .leave => none

/-- The calls whose requests were put into the queue, in order. -/
def submitted (trace : List (Event ι α)) : List ι := trace.filterMap Event.submits?

/-- The calls whose tasks were started, in order. -/
def started (trace : List (Event ι α)) : List ι := trace.filterMap Event.takes?

/-- The calls whose tasks ended, in order. -/
def finished (trace : List (Event ι α)) : List ι := trace.filterMap Event.finishes?

/-- The starts and ends of tasks, in order. -/
def executions (trace : List (Event ι α)) : List (Event ι α) :=
  trace.filter fun e => e.takes?.isSome || e.finishes?.isSome

/-- The call whose task is being run. -/
def Activity.current : Activity ι α → List ι
  | .running c => [c]
  | .ready | .replying .. | .ended => []

section Trace

variable {trace : List (Event ι α)} {e : Event ι α} {c : ι}

/-- What a trace has of events of one kind is what its events of that kind are made of. -/
theorem mem_filterMap_iff {β γ : Type} {trace : List β} {pick : β → Option γ} {make : γ → β} {c : γ}
    (h : ∀ e c, pick e = some c ↔ e = make c) : c ∈ trace.filterMap pick ↔ make c ∈ trace := by
  simp [List.mem_filterMap, h]

theorem mem_submitted : c ∈ submitted trace ↔ .submit c ∈ trace :=
  mem_filterMap_iff (by intro e c; cases e <;> simp [Event.submits?])

theorem mem_started : c ∈ started trace ↔ .take c ∈ trace :=
  mem_filterMap_iff (by intro e c; cases e <;> simp [Event.takes?])

theorem mem_finished : c ∈ finished trace ↔ .finish c ∈ trace :=
  mem_filterMap_iff (by intro e c; cases e <;> simp [Event.finishes?])

theorem submitted_snoc (trace : List (Event ι α)) (c : ι) :
    submitted (trace ++ [.submit c]) = submitted trace ++ [c] := by
  simp [submitted, Event.submits?]

theorem started_snoc (trace : List (Event ι α)) (c : ι) :
    started (trace ++ [.take c]) = started trace ++ [c] := by
  simp [started, Event.takes?]

theorem finished_snoc (trace : List (Event ι α)) (c : ι) :
    finished (trace ++ [.finish c]) = finished trace ++ [c] := by
  simp [finished, Event.finishes?]

theorem submitted_snoc_of_none (h : e.submits? = none) : submitted (trace ++ [e]) = submitted trace := by
  simp [submitted, h]

theorem started_snoc_of_none (h : e.takes? = none) : started (trace ++ [e]) = started trace := by
  simp [started, h]

theorem finished_snoc_of_none (h : e.finishes? = none) : finished (trace ++ [e]) = finished trace := by
  simp [finished, h]

theorem executions_snoc_of_none (h : e.takes? = none) (h' : e.finishes? = none) :
    executions (trace ++ [e]) = executions trace := by
  simp [executions, h, h']

end Trace

/-! ## Changing one value of a function -/

section Assign

variable {β : Type} [DecidableEq ι]

@[simp] theorem assign_self (f : ι → β) (x : ι) (b : β) : assign f x b x = b := if_pos rfl

theorem assign_of_ne {f : ι → β} {x y : ι} {b : β} (h : y ≠ x) : assign f x b y = f y := if_neg h

end Assign

/-! ## The worker -/

variable {tasks : ι → Task α} {s : Sequencer} {trace : List (Event ι α)} {d d' : Dispatch ι α} {e : Event ι α}

/-- The tasks that ran, in turn, led to the state: requests are taken in the order in which they were
submitted, a task ends before the next one starts, and the state is that of a worker which performed the
tasks one after the other. -/
structure Serves (tasks : ι → Task α) (s : Sequencer) (trace : List (Event ι α)) (d : Dispatch ι α) :
    Prop where
  fifo : submitted trace = started trace ++ d.queue
  current : started trace = finished trace ++ d.activity.current
  inTurn : executions trace
    = (finished trace).flatMap (fun c => [.take c, .finish c]) ++ d.activity.current.map .take
  performed : (⟨d.sequencer, false⟩, d.calls)
    = Worker.performAll { sequencer := s } ((finished trace).map tasks)

namespace Serves

theorem init : Serves tasks s [] ({ sequencer := s } : Dispatch ι α) := ⟨rfl, rfl, rfl, rfl⟩

/-- An event by which no request is submitted or taken and no task ends. -/
theorem frame (h : Serves tasks s trace d) (hsubmits : e.submits? = none) (htakes : e.takes? = none)
    (hfinishes : e.finishes? = none) (hqueue : d'.queue = d.queue)
    (hcurrent : d'.activity.current = d.activity.current) (hsequencer : d'.sequencer = d.sequencer)
    (hcalls : d'.calls = d.calls) : Serves tasks s (trace ++ [e]) d' where
  fifo := by rw [submitted_snoc_of_none hsubmits, started_snoc_of_none htakes, hqueue, h.fifo]
  current := by rw [started_snoc_of_none htakes, finished_snoc_of_none hfinishes, hcurrent, h.current]
  inTurn := by
    rw [executions_snoc_of_none htakes hfinishes, finished_snoc_of_none hfinishes, hcurrent, h.inTurn]
  performed := by rw [finished_snoc_of_none hfinishes, hsequencer, hcalls, h.performed]

/-- **One step.** Only the submission and the taking of a request and the end of a task concern the tasks. -/
theorem step [DecidableEq ι] (h : Serves tasks s trace d) (hstep : Step tasks d e d') :
    Serves tasks s (trace ++ [e]) d' := by
  cases hstep with
  | call | pass | refuse | abandon | collect | withdraw | stop => exact h.frame rfl rfl rfl rfl rfl rfl rfl
  | @submit c =>
    refine ⟨?_, ?_, ?_, ?_⟩
    · show submitted (trace ++ [.submit c]) = started (trace ++ [.submit c]) ++ (d.queue ++ [c])
      rw [started_snoc_of_none rfl, ← List.append_assoc, ← h.fifo]
      exact submitted_snoc trace c
    · rw [started_snoc_of_none rfl, finished_snoc_of_none rfl]
      exact h.current
    · rw [executions_snoc_of_none rfl rfl, finished_snoc_of_none rfl]
      exact h.inTurn
    · rw [finished_snoc_of_none rfl]
      exact h.performed
  | @take c rest hready hfront =>
    -- the worker was at no task before
    have hidle : d.activity.current = [] := by rw [hready]; rfl
    have hcurrent := h.current
    have hinTurn := h.inTurn
    rw [hidle, List.append_nil] at hcurrent
    rw [hidle, List.map_nil, List.append_nil] at hinTurn
    refine ⟨?_, ?_, ?_, ?_⟩
    · rw [submitted_snoc_of_none rfl, started_snoc, h.fifo, hfront, List.append_assoc]
      rfl
    · rw [started_snoc, finished_snoc_of_none rfl, hcurrent]
      rfl
    · rw [finished_snoc_of_none rfl, ← hinTurn]
      simp [executions, Event.takes?, Activity.current]
    · rw [finished_snoc_of_none rfl]
      exact h.performed
  | @finish c hrunning =>
    have hbusy : d.activity.current = [c] := by rw [hrunning]; rfl
    have hcurrent := h.current
    have hinTurn := h.inTurn
    rw [hbusy] at hcurrent hinTurn
    refine ⟨?_, ?_, ?_, ?_⟩
    · rw [submitted_snoc_of_none rfl, started_snoc_of_none rfl]
      exact h.fifo
    · rw [started_snoc_of_none rfl, finished_snoc, hcurrent]
      exact (List.append_nil _).symm
    · have hexecutions : executions (trace ++ [.finish c]) = executions trace ++ [.finish c] := by
        simp [executions, Event.finishes?]
      rw [hexecutions, finished_snoc, hinTurn]
      simp [Activity.current]
    · rw [finished_snoc, List.map_append, List.map_singleton, Worker.performAll_snoc, ← h.performed]
      rfl
  | @reply c value hreplying =>
    have hidle : d.activity.current = [] := by rw [hreplying]; rfl
    exact h.frame rfl rfl rfl rfl hidle.symm rfl rfl
  | leave hready =>
    have hidle : d.activity.current = [] := by rw [hready]; rfl
    exact h.frame rfl rfl rfl rfl hidle.symm rfl rfl

end Serves

/-! ## The calls -/

/-- The call has not submitted its request. -/
def Stage.Early : Stage α → Prop
  | .idle | .begun | .submitting => True
  | .waiting | .returned _ => False

/-- No request is submitted twice, and none by a call that has not come so far. -/
structure Fresh (trace : List (Event ι α)) (d : Dispatch ι α) : Prop where
  nodup : (submitted trace).Nodup
  early : ∀ c, (d.stage c).Early → c ∉ submitted trace

namespace Fresh

theorem init : Fresh ([] : List (Event ι α)) { sequencer := s } where
  nodup := List.nodup_nil
  early _ _ := List.not_mem_nil

/-- An event by which no request is submitted, and after which no call is at an earlier stage. -/
theorem frame (h : Fresh trace d) (hsubmits : e.submits? = none)
    (hearly : ∀ c, (d'.stage c).Early → (d.stage c).Early) : Fresh (trace ++ [e]) d' where
  nodup := by rw [submitted_snoc_of_none hsubmits]; exact h.nodup
  early c hc := by rw [submitted_snoc_of_none hsubmits]; exact h.early c (hearly c hc)

variable [DecidableEq ι]

/-- A call that goes on to a stage, from one at which its request was not submitted if it is not there. -/
theorem early_of_advance {c : ι} {stage : Stage α} (hstage : stage.Early → (d.stage c).Early) (x : ι)
    (hx : ((d.advance c stage).stage x).Early) : (d.stage x).Early := by
  have hassign : (d.advance c stage).stage x = assign d.stage c stage x := rfl
  rw [hassign] at hx
  by_cases hxc : x = c
  · subst hxc
    rw [assign_self] at hx
    exact hstage hx
  · rwa [assign_of_ne hxc] at hx

theorem step (h : Fresh trace d) (hstep : Step tasks d e d') : Fresh (trace ++ [e]) d' := by
  cases hstep with
  | call hidle => exact h.frame rfl (early_of_advance fun _ => by rw [hidle]; trivial)
  | pass hbegun => exact h.frame rfl (early_of_advance fun _ => by rw [hbegun]; trivial)
  | refuse | abandon | collect | withdraw => exact h.frame rfl (early_of_advance False.elim)
  | take | finish | reply | leave | stop => exact h.frame rfl fun _ hx => hx
  | @submit c hsubmitting =>
    have hnew : c ∉ submitted trace := h.early c (by rw [hsubmitting]; trivial)
    refine ⟨?_, ?_⟩
    · rw [submitted_snoc, List.nodup_append]
      refine ⟨h.nodup, List.pairwise_singleton _ c, ?_⟩
      rintro a ha b hb rfl
      exact hnew (List.mem_singleton.mp hb ▸ ha)
    · intro x hx hmem
      have hadvanced : ((d.advance c .waiting).stage x).Early := hx
      have hxold : (d.stage x).Early := early_of_advance False.elim x hadvanced
      rw [submitted_snoc, List.mem_append, List.mem_singleton] at hmem
      rcases hmem with hmem | rfl
      · exact h.early x hxold hmem
      · -- the call itself waits now
        have hwaiting : (assign d.stage x .waiting x).Early := hx
        rw [assign_self] at hwaiting
        exact hwaiting

end Fresh

/-! ## The replies -/

/-- A worker that performs the tasks of `order` in turn gives `answer` to the call `c` among them. -/
def Answered (tasks : ι → Task α) (s : Sequencer) (order : List ι) (c : ι) (answer : Except Worker.Error α) :
    Prop :=
  ∃ before after, order = before ++ c :: after ∧
    ((Worker.performAll { sequencer := s } (before.map tasks)).1.perform (tasks c)).answer = answer

/-- Tasks that run later do not matter. -/
theorem Answered.append {order : List ι} {c : ι} {answer : Except Worker.Error α}
    (h : Answered tasks s order c answer) (more : List ι) : Answered tasks s (order ++ more) c answer := by
  obtain ⟨before, after, rfl, hanswer⟩ := h
  exact ⟨before, after ++ more, by simp, hanswer⟩

theorem Answered.mem {order : List ι} {c : ι} {answer : Except Worker.Error α}
    (h : Answered tasks s order c answer) : c ∈ order := by
  obtain ⟨before, after, rfl, -⟩ := h
  simp

/-- Every reply, on its way, left for its call or returned by it, is what the task of that call came to. -/
structure Honest (tasks : ι → Task α) (s : Sequencer) (trace : List (Event ι α)) (d : Dispatch ι α) :
    Prop where
  replying : ∀ c value, d.activity = .replying c value →
    Answered tasks s (finished trace) c (value.mapError .brokeOff)
  replied : ∀ c value, d.replies c = some value →
    Answered tasks s (finished trace) c (value.mapError .brokeOff)
  returned : ∀ c answer, .returns c answer ∈ trace → answer ≠ .error .stopped →
    Answered tasks s (finished trace) c answer

namespace Honest

theorem init : Honest tasks s [] ({ sequencer := s } : Dispatch ι α) where
  replying c value h := by cases h
  replied c value h := by cases h
  returned c answer h := absurd h List.not_mem_nil

/-- An event by which no reply comes up: the worker is at a reply only if it was at it, one that is left for
a call was left before or was on its way, and one that a call returns was left for it. -/
theorem frame (h : Honest tasks s trace d)
    (hactivity : ∀ c value, d'.activity = .replying c value → d.activity = .replying c value)
    (hreplies : ∀ c value, d'.replies c = some value →
      d.replies c = some value ∨ d.activity = .replying c value)
    (hreturns : ∀ c answer, e = .returns c answer → answer = .error .stopped ∨
      ∃ value, d.replies c = some value ∧ answer = value.mapError .brokeOff) :
    Honest tasks s (trace ++ [e]) d' := by
  have hgrow : ∀ c answer, Answered tasks s (finished trace) c answer →
      Answered tasks s (finished (trace ++ [e])) c answer := by
    intro c answer hc
    have hfinished : finished (trace ++ [e]) = finished trace ++ finished [e] := by simp [finished]
    rw [hfinished]
    exact hc.append _
  refine ⟨?_, ?_, ?_⟩
  · intro c value hc
    exact hgrow c _ (h.replying c value (hactivity c value hc))
  · intro c value hc
    rcases hreplies c value hc with hold | hold
    · exact hgrow c _ (h.replied c value hold)
    · exact hgrow c _ (h.replying c value hold)
  · intro c answer hmem hne
    rw [List.mem_append, List.mem_singleton] at hmem
    rcases hmem with hmem | hmem
    · exact hgrow c _ (h.returned c answer hmem hne)
    · rcases hreturns c answer hmem.symm with hstopped | ⟨value, hvalue, rfl⟩
      · exact absurd hstopped hne
      · exact hgrow c _ (h.replied c value hvalue)

/-- An event that no reply has to do with, a return only if it is that of the stop error. -/
theorem frame_of_eq (h : Honest tasks s trace d) (hactivity : d'.activity = d.activity)
    (hreplies : d'.replies = d.replies)
    (hreturns : ∀ c answer, e = .returns c answer → answer = .error .stopped) :
    Honest tasks s (trace ++ [e]) d' := by
  apply h.frame
  · intro c value hc
    rwa [← hactivity]
  · intro c value hc
    rw [hreplies] at hc
    exact .inl hc
  · intro c answer he
    exact .inl (hreturns c answer he)

variable [DecidableEq ι]

/-- **One step.** A reply comes up when a task ends, and it is what the task comes to in the state that the
tasks before it left. -/
theorem step (h : Honest tasks s trace d) (hserves : Serves tasks s trace d) (hstep : Step tasks d e d') :
    Honest tasks s (trace ++ [e]) d' := by
  cases hstep with
  | call | pass | submit | stop => exact h.frame_of_eq rfl rfl (by rintro _ _ ⟨⟩)
  | refuse | abandon | withdraw => exact h.frame_of_eq rfl rfl (by rintro _ _ ⟨⟩; rfl)
  | take | leave => exact h.frame (by rintro _ _ ⟨⟩) (fun _ _ hold => .inl hold) (by rintro _ _ ⟨⟩)
  | @finish c =>
    have hworker : (Worker.performAll { sequencer := s } ((finished trace).map tasks)).1
        = { sequencer := d.sequencer } := by
      rw [← hserves.performed]
    have hanswered : Answered tasks s (finished trace ++ [c]) c
        ((tasks c d.sequencer).value.mapError .brokeOff) := by
      refine ⟨finished trace, [], rfl, ?_⟩
      rw [hworker]
      rfl
    rw [← finished_snoc] at hanswered
    refine ⟨?_, ?_, ?_⟩
    · rintro x value hx
      obtain ⟨rfl, rfl⟩ := Activity.replying.inj hx
      exact hanswered
    · intro x value hx
      rw [finished_snoc]
      exact (h.replied x value hx).append [c]
    · intro x answer hmem hne
      have hold : .returns x answer ∈ trace := by simpa using hmem
      rw [finished_snoc]
      exact (h.returned x answer hold hne).append [c]
  | @reply c value hreplying =>
    apply h.frame
    · rintro _ _ ⟨⟩
    · intro x v hx
      have hassign : assign d.replies c (some value) x = some v := hx
      by_cases hxc : x = c
      · subst hxc
        rw [assign_self] at hassign
        obtain rfl := Option.some.inj hassign
        exact .inr hreplying
      · rw [assign_of_ne hxc] at hassign
        exact .inl hassign
    · rintro _ _ ⟨⟩
  | @collect c value hwaiting hreplied =>
    apply h.frame
    · exact fun _ _ hold => hold
    · intro x v hx
      have hassign : assign d.replies c none x = some v := hx
      by_cases hxc : x = c
      · rw [hxc, assign_self] at hassign
        cases hassign
      · rw [assign_of_ne hxc] at hassign
        exact .inl hassign
    · rintro _ _ ⟨⟩
      exact .inr ⟨value, hreplied, rfl⟩

end Honest

/-! ## Runs -/

/-- What a trace says of the state that it leads to. -/
structure Tracks (tasks : ι → Task α) (s : Sequencer) (trace : List (Event ι α)) (d : Dispatch ι α) :
    Prop where
  serves : Serves tasks s trace d
  fresh : Fresh trace d
  honest : Honest tasks s trace d
  stopped : .stop ∈ trace → d.stopped = true

section Run

variable [DecidableEq ι] {start : Dispatch ι α}

/-- The stop mark stays. -/
theorem Step.stopped_of_stopped (hstep : Step tasks d e d') (h : d.stopped = true ∨ e = .stop) :
    d'.stopped = true := by
  cases hstep with
  | stop => rfl
  | _ =>
    rcases h with h | h
    · exact h
    · cases h

theorem Tracks.step (h : Tracks tasks s trace d) (hstep : Step tasks d e d') :
    Tracks tasks s (trace ++ [e]) d' where
  serves := h.serves.step hstep
  fresh := h.fresh.step hstep
  honest := h.honest.step h.serves hstep
  stopped hmem := by
    apply hstep.stopped_of_stopped
    rw [List.mem_append, List.mem_singleton] at hmem
    exact hmem.imp h.stopped Eq.symm

/-- **Along every run,** from a worker that nobody has called yet. -/
theorem Run.tracks (h : Run tasks { sequencer := s } trace d) : Tracks tasks s trace d := by
  induction h with
  | nil => exact ⟨Serves.init, Fresh.init, Honest.init, fun hmem => absurd hmem List.not_mem_nil⟩
  | snoc run step ih => exact ih.step step

/-- A run is split at each of its events. -/
theorem Run.split {before after : List (Event ι α)} (h : Run tasks start trace d)
    (htrace : trace = before ++ e :: after) :
    ∃ d₁ d₂, Run tasks start before d₁ ∧ Step tasks d₁ e d₂ ∧ Run tasks d₂ after d := by
  induction h generalizing after with
  | nil => simp at htrace
  | @snoc trace d d' last run step ih =>
    rcases List.eq_nil_or_concat after with rfl | ⟨after, last', rfl⟩
    · obtain ⟨rfl, hlast⟩ := List.append_inj' htrace rfl
      obtain rfl := List.singleton_inj.mp hlast
      exact ⟨d, d', run, step, .nil⟩
    · have hsplit : trace ++ [last] = (before ++ e :: after) ++ [last'] := by simpa using htrace
      obtain ⟨hprior, hlast⟩ := List.append_inj' hsplit rfl
      obtain rfl := List.singleton_inj.mp hlast
      obtain ⟨d₁, d₂, hbefore, hstep, hafter⟩ := ih hprior
      rw [List.concat_eq_append]
      exact ⟨d₁, d₂, hbefore, hstep, hafter.snoc step⟩

/-! ## Calls that begin too late -/

/-- A call that began after the worker was told to stop, with what happened since it began: it has not found
out yet, or it has returned the stop error, and did nothing else. -/
structure Late (c : ι) (since : List (Event ι α)) (d : Dispatch ι α) : Prop where
  stopped : d.stopped = true
  stage : d.stage c = .begun ∨ .returns c (.error .stopped) ∈ since ∧ d.stage c = .returned (.error .stopped)
  only : ∀ e ∈ since, e.caller? = some c → e = .returns c (.error .stopped)

/-- The steps of others leave the stage of a call. -/
theorem Step.stage_of_caller_ne {c : ι} (hstep : Step tasks d e d') (h : e.caller? ≠ some c) :
    d'.stage c = d.stage c := by
  have hne : ∀ x : ι, some x ≠ some c → c ≠ x := fun x hx hcx => hx (congrArg some hcx.symm)
  cases hstep with
  | call | pass | refuse | submit | abandon | collect | withdraw => exact assign_of_ne (hne _ h)
  | take | finish | reply | leave | stop => rfl

theorem Late.step {c : ι} {since : List (Event ι α)} (h : Late c since d) (hstep : Step tasks d e d') :
    Late c (since ++ [e]) d' := by
  have hstopped : d'.stopped = true := hstep.stopped_of_stopped (.inl h.stopped)
  by_cases hcaller : e.caller? = some c
  · -- of the rules for a caller only one applies
    have hrefused : e = .returns c (.error .stopped) ∧ d'.stage c = .returned (.error .stopped) := by
      have hstage := h.stage
      cases hstep with
      | refuse =>
        obtain rfl := Option.some.inj hcaller
        exact ⟨rfl, assign_self ..⟩
      | pass _ hserving =>
        rw [h.stopped] at hserving
        cases hserving
      | call hother | submit hother | abandon hother | collect hother | withdraw hother =>
        obtain rfl := Option.some.inj hcaller
        rw [hother] at hstage
        rcases hstage with hstage | ⟨-, hstage⟩ <;> cases hstage
      | take | finish | reply | leave | stop => cases hcaller
    refine ⟨hstopped, .inr ⟨?_, hrefused.2⟩, ?_⟩
    · rw [hrefused.1]
      simp
    · intro x hx hxc
      rw [List.mem_append, List.mem_singleton] at hx
      rcases hx with hx | rfl
      · exact h.only x hx hxc
      · exact hrefused.1
  · have hstage : d'.stage c = d.stage c := hstep.stage_of_caller_ne hcaller
    refine ⟨hstopped, ?_, ?_⟩
    · rw [hstage, List.mem_append]
      exact h.stage.imp_right fun hreturned => ⟨.inl hreturned.1, hreturned.2⟩
    · intro x hx hxc
      rw [List.mem_append, List.mem_singleton] at hx
      rcases hx with hx | rfl
      · exact h.only x hx hxc
      · exact absurd hxc hcaller

theorem Late.run {c : ι} {since : List (Event ι α)} (h : Late c [] d) (hrun : Run tasks d since d') :
    Late c since d' := by
  induction hrun with
  | nil => exact h
  | snoc run step ih => exact ih.step step

/-- From the event on with which the call begins. -/
theorem Run.late {c : ι} {before since : List (Event ι α)} (h : Run tasks { sequencer := s } trace d)
    (htrace : trace = before ++ .call c :: since) (hstop : .stop ∈ before) : Late c since d := by
  obtain ⟨d₁, d₂, hbefore, hstep, hafter⟩ := h.split htrace
  have hstopped : d₁.stopped = true := hbefore.tracks.stopped hstop
  cases hstep with
  | call =>
    have hbegun : Late c [] (d₁.advance c .begun) :=
      ⟨hstopped, .inl (assign_self ..), fun _ hmem => absurd hmem List.not_mem_nil⟩
    exact hbegun.run hafter

end Run

/-! ## Linearizability -/

/-- **The answers are those of tasks performed in turn.** `finished trace` is the order of the tasks. -/
structure Linearizable [DecidableEq ι] (tasks : ι → Task α) (s : Sequencer) (trace : List (Event ι α))
    (d : Dispatch ι α) : Prop where
  /-- No task runs twice. -/
  once : (started trace).Nodup
  /-- What runs was submitted, and runs in the order of submission. -/
  fifo : submitted trace = started trace ++ d.queue
  /-- A task ends before the next one starts. -/
  inTurn : executions trace
    = (finished trace).flatMap (fun c => [.take c, .finish c]) ++ d.activity.current.map .take
  /-- Every task runs on the state that the tasks before it left. -/
  performed : (⟨d.sequencer, false⟩, d.calls)
    = Worker.performAll { sequencer := s } ((finished trace).map tasks)
  /-- A call that returns anything but the stop error ran its task once, and returns what the task came to. -/
  answered : ∀ c answer, .returns c answer ∈ trace → answer ≠ .error .stopped →
    (started trace).count c = 1 ∧ (finished trace).count c = 1 ∧ Answered tasks s (finished trace) c answer
  /-- When such a call returns before another one begins, its task ran before that of the other starts. -/
  ordered : ∀ c answer e before after, trace = before ++ .returns c answer :: after →
    answer ≠ .error .stopped → .call e ∈ after → .finish c ∈ before ∧ .take e ∉ before
  /-- A call that begins after the stop returns the stop error, or can do nothing else, and its task never
  runs. -/
  late : ∀ c before after, trace = before ++ .call c :: after → .stop ∈ before →
    .take c ∉ trace ∧ (∀ e ∈ after, e.caller? = some c → e = .returns c (.error .stopped)) ∧
      (.returns c (.error .stopped) ∈ after ∨ ∃ d', Step tasks d (.returns c (.error .stopped)) d')

/-- A task that was started was submitted. -/
theorem Serves.submit_mem_of_take_mem {c : ι} (h : Serves tasks s trace d) (hmem : .take c ∈ trace) :
    .submit c ∈ trace := by
  rw [← mem_submitted, h.fifo]
  exact List.mem_append_left _ (mem_started.mpr hmem)

/-- No task is started twice. -/
theorem Tracks.nodup_started (h : Tracks tasks s trace d) : (started trace).Nodup := by
  have hnodup := h.fresh.nodup
  rw [h.serves.fifo] at hnodup
  exact hnodup.of_append_left

variable [DecidableEq ι]

/-- Before it begins, a call has submitted nothing. -/
theorem Run.submit_not_mem {c : ι} {before after : List (Event ι α)}
    (h : Run tasks { sequencer := s } trace d) (htrace : trace = before ++ .call c :: after) :
    .submit c ∉ before := by
  obtain ⟨d₁, d₂, hbefore, hstep, -⟩ := h.split htrace
  cases hstep with
  | call hidle =>
    rw [← mem_submitted]
    apply hbefore.tracks.fresh.early c
    rw [hidle]
    trivial

/-- A call that returns anything but the stop error. -/
theorem Run.answered_once (h : Run tasks { sequencer := s } trace d) {c : ι} {answer : Except Worker.Error α}
    (hmem : .returns c answer ∈ trace) (hne : answer ≠ .error .stopped) :
    (started trace).count c = 1 ∧ (finished trace).count c = 1
      ∧ Answered tasks s (finished trace) c answer := by
  have hanswered := h.tracks.honest.returned c answer hmem hne
  have hstarted := h.tracks.nodup_started
  rw [h.tracks.serves.current] at hstarted ⊢
  have hfinished : (finished trace).Nodup := hstarted.of_append_left
  have hmem' : c ∈ finished trace ++ d.activity.current := List.mem_append_left _ hanswered.mem
  exact ⟨List.count_eq_one_of_mem hstarted hmem', List.count_eq_one_of_mem hfinished hanswered.mem, hanswered⟩

/-- Calls that do not overlap: the trace up to the return is that of a run, too, in which the task of the first
call has ended and the second call is not known yet. -/
theorem Run.in_order (h : Run tasks { sequencer := s } trace d) {c e : ι} {answer : Except Worker.Error α}
    {before after : List (Event ι α)} (htrace : trace = before ++ .returns c answer :: after)
    (hne : answer ≠ .error .stopped) (hcall : .call e ∈ after) : .finish c ∈ before ∧ .take e ∉ before := by
  obtain ⟨d₁, d₂, hbefore, hstep, -⟩ := h.split htrace
  constructor
  · have hanswered := (hbefore.snoc hstep).tracks.honest.returned c answer (by simp) hne
    rw [finished_snoc_of_none rfl] at hanswered
    exact mem_finished.mp hanswered.mem
  · intro htake
    obtain ⟨mid, rest, rfl⟩ := List.append_of_mem hcall
    have hsplit : trace = (before ++ .returns c answer :: mid) ++ .call e :: rest := by simpa using htrace
    have hsubmit : .submit e ∉ before ++ .returns c answer :: mid := h.submit_not_mem hsplit
    exact hsubmit (List.mem_append_left _ (hbefore.tracks.serves.submit_mem_of_take_mem htake))

/-- The task of a call that begins after the stop never runs: its request is not submitted. -/
theorem Run.take_not_mem_of_late (h : Run tasks { sequencer := s } trace d) {c : ι}
    {before after : List (Event ι α)} (htrace : trace = before ++ .call c :: after) (hlate : Late c after d) :
    .take c ∉ trace := by
  intro htake
  have hsubmit := h.tracks.serves.submit_mem_of_take_mem htake
  rw [htrace, List.mem_append, List.mem_cons] at hsubmit
  rcases hsubmit with hsubmit | hsubmit | hsubmit
  · exact h.submit_not_mem htrace hsubmit
  · cases hsubmit
  · cases hlate.only _ hsubmit rfl

/-- **A worker is linearizable.** Along every run, from a worker that nobody has called yet. -/
theorem worker_linearizable (h : Run tasks { sequencer := s } trace d) : Linearizable tasks s trace d := by
  have hserves := h.tracks.serves
  refine ⟨h.tracks.nodup_started, hserves.fifo, hserves.inTurn, hserves.performed, ?_, ?_, ?_⟩
  · intro c answer hmem hne
    exact h.answered_once hmem hne
  · intro c answer e before after htrace hne hcall
    exact h.in_order htrace hne hcall
  · intro c before after htrace hstop
    have hlate := h.late htrace hstop
    refine ⟨h.take_not_mem_of_late htrace hlate, hlate.only, ?_⟩
    rcases hlate.stage with hbegun | ⟨hmem, -⟩
    · exact .inr ⟨_, .refuse hbegun hlate.stopped⟩
    · exact .inl hmem

/-- The task of the first call starts playback, and that of the second one breaks off; the third call begins
after the stop. -/
theorem worker_linearizable_around_stop :
    ∃ (s : Sequencer) (tasks : Nat → Task Mode) (trace : List (Event Nat Mode)) (d : Dispatch Nat Mode),
      Run tasks { sequencer := s } trace d ∧ finished trace = [0, 1] ∧ d.sequencer.mode = .running ∧
      .returns 0 (.ok .running) ∈ trace ∧ .returns 1 (.error (.brokeOff "lost")) ∈ trace ∧
      [.stop, .call 2, .returns 2 (.error .stopped)] <:+ trace ∧ Linearizable tasks s trace d := by
  let s : Sequencer := ⟨⟨1, .skip, 10⟩, Store.empty 8, .paused, 0, ⟨0, 0⟩⟩
  let tasks : Nat → Task Mode := fun c =>
    if c = 0 then fun s => { state := { s with mode := .running }, value := .ok .running }
    else Task.breakOff "lost"
  have hbegin := ((((@Run.nil _ _ _ tasks { sequencer := s }).snoc (.call (c := 0) rfl)).snoc
    (.pass (c := 0) rfl rfl)).snoc (.call (c := 1) rfl)).snoc (.pass (c := 1) rfl rfl)
  have hfirst := (((hbegin.snoc (.submit (c := 0) rfl (by decide))).snoc (.take rfl rfl)).snoc
    (.submit (c := 1) rfl (by decide))).snoc (.finish rfl)
  have hsecond := (((((hfirst.snoc (.reply rfl rfl)).snoc (.take rfl rfl)).snoc
    (.collect (c := 0) rfl rfl)).snoc (.finish rfl)).snoc (.reply rfl rfl)).snoc (.collect (c := 1) rfl rfl)
  have hrun := ((hsecond.snoc .stop).snoc (.call (c := 2) rfl)).snoc (.refuse (c := 2) rfl rfl)
  refine ⟨s, tasks, [.call 0, .pass 0, .call 1, .pass 1, .submit 0, .take 0, .submit 1, .finish 0, .reply 0,
      .take 1, .returns 0 (.ok .running), .finish 1, .reply 1, .returns 1 (.error (.brokeOff "lost"))]
    ++ [.stop, .call 2, .returns 2 (.error .stopped)],
    _, hrun, rfl, rfl, ?_, ?_, List.suffix_append _ _, worker_linearizable hrun⟩
  · simp
  · simp

end Dispatch

end StripSequencer
