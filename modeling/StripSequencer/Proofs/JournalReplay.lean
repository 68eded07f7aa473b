import StripSequencer.Proofs.SendSession

/-!
# `StripSequencer.Proofs.JournalReplay` — the journal tells what happened

A client makes its requests one after the other, while the sequencer ticks. Every frame that carries a command is
entered into the journal with the mode that the command met and the status that it was answered with; nothing else
is. The commands of the entries, fed to a sequencer that is like the first one was at the start, meet the same modes,
come to the same statuses and lead to the same program, although no tick is in the journal.

## Contents
- `Service.Visit`, `Service.visit`, `Service.visited`: what a client and the ticker do, and what it leads to.
- `Sequencer.replay`: the modes and statuses of the commands of entries; `Journal.Tells`.
- `Service.Keeps`, `keeps_of_command`, `keeps_of_none`: one request, with and without a command.
- `visited_tells`: a run; `Service.Accounts`, `journal_replays`.
-/

namespace StripSequencer

namespace Journal

/-- The command of an entry. -/
def Entry.event (e : Entry) : Sequencer.Event := .command e.command e.payload

/-- An open journal takes every entry, and numbers it. -/
theorem record_of_open {j : Journal} (h : j.isOpen = true) (time : Int64) (command : UInt8) (payload : Payload)
    (mode status : String) :
    j.record time command payload mode status = .ok { j with
      entries := j.entries ++ [⟨j.entries.length + 1, time, command, payload, mode, status⟩] } := by
  unfold record permit
  rw [h]
  rfl

theorem count_of_open {j : Journal} (h : j.isOpen = true) : j.count = .ok j.entries.length := by
  unfold count permit
  rw [h]
  rfl

/-- A limit that is no less than the number of entries leaves none of them out. -/
theorem recent_of_open {j : Journal} (h : j.isOpen = true) {limit : Int} (hlimit : j.entries.length ≤ limit) :
    j.recent limit = .ok j.entries := by
  have hdrop : j.entries.length - limit.toNat = 0 := by omega
  unfold recent permit
  rw [h, hdrop, if_neg (by omega : ¬limit < 0)]
  rfl

end Journal

namespace Sequencer

/-- The commands of entries fed to a sequencer: the mode that each of them meets, and the status that it is answered
with. -/
def replay (s : Sequencer) : List Journal.Entry → List (String × String)
  | [] => []
  | e :: entries => (s.mode.name, (s.step e.event).answer.status) :: (s.step e.event).state.replay entries

/-- The program is a part of the draft. -/
theorem program_eq_of_draft_eq {s t : Sequencer} (h : s.draft = t.draft) : s.program = t.program := by
  rw [eq_moved_of_draft_eq h]
  rfl

end Sequencer

namespace Service

/-- What is done with a service: a frame comes in at some time, the ticker ticks, or a client looks at the
sequencer or takes an image of its program. -/
inductive Visit where
  | frame (now : Int64) (bytes : List UInt8)
  | tick (hook : Ticker.Hook)
  | inspect
  | snapshot

/-- The service after a visit. -/
def visit (service : Service) : Visit → Service
  | .frame now bytes => (service.handleFrame now bytes).service
  | .tick hook => { service with worker := (Ticker.step service.worker hook).worker }
  | .inspect => service.inspect.service
  | .snapshot => service.snapshot.service

/-- The service after visits, one at a time. -/
def visited (service : Service) (visits : List Visit) : Service := visits.foldl visit service

/-- The command that a visit brings: that of a frame of one to five bytes, the payload filled up with zeros. -/
def Visit.command? : Visit → Option (UInt8 × Payload)
  | .frame _ (command :: payload) => if payload.length ≤ 4 then some (command, Payload.ofList payload) else none
  | .frame _ [] | .tick _ | .inspect | .snapshot => none

end Service

/-- **Entries tell of a run** from one sequencer to another: replaying them, the commands meet the modes that stand
in the entries and come to the statuses that stand there, and lead to the state at the end of the run, up to the
place of playback. -/
structure Journal.Tells (s : Sequencer) (entries : List Journal.Entry) (t : Sequencer) : Prop where
  replayed : s.replay entries = entries.map fun e => (e.mode, e.status)
  mode : (s.after (entries.map Journal.Entry.event)).mode = t.mode
  program : (s.after (entries.map Journal.Entry.event)).program = t.program
  /-- Every byte of the buffer, and what remains of it. -/
  store : (s.after (entries.map Journal.Entry.event)).store = t.store

namespace Service

variable {service : Service} {j : Journal}

/-- A service at work, with an open journal. -/
structure Keeps (service : Service) (j : Journal) : Prop where
  serving : service.worker.stopped = false
  journal : service.journal = some j
  isOpen : j.isOpen = true

/-! ## One visit -/

/-- The frames that bring a command are those that are taken apart. -/
theorem toOption_parse (now : Int64) (bytes : List UInt8) :
    (Frame.parse bytes).toOption = (Visit.frame now bytes).command? := by
  cases bytes with
  | nil => rfl
  | cons command payload =>
    unfold Frame.parse Visit.command? Frame.maxLength
    dsimp only
    rw [List.length_cons]
    by_cases h : payload.length ≤ 4
    · rw [if_pos h, if_neg (by omega)]
      rfl
    · rw [if_neg h, if_pos (by omega)]
      rfl

theorem perform_look (h : service.worker.stopped = false) {α : Type} (f : Sequencer → α) :
    (service.perform (Task.look f)).service = service := by
  unfold perform
  rw [Worker.perform_of_serving h]
  rfl

/-- An open journal takes the entry of a command. -/
theorem recorded_of_open (hjournal : service.journal = some j) (hopen : j.isOpen = true) (now : Int64)
    (command : UInt8) (payload : Payload) (mode : Mode) (status : String) :
    service.recorded now command payload mode status
      = { service with journal := some { j with
          entries := j.entries ++ [⟨j.entries.length + 1, now, command, payload, mode.name, status⟩] } } := by
  unfold recorded
  rw [hjournal]
  dsimp only
  rw [Journal.record_of_open hopen]

/-- **A visit that brings a command.** The command is a step of the sequencer, and the entry tells of it. -/
theorem keeps_of_command (h : Keeps service j) {v : Visit} {command : UInt8} {payload : Payload}
    (hv : v.command? = some (command, payload)) :
    ∃ entry : Journal.Entry, entry.id = j.entries.length + 1 ∧ (entry.command, entry.payload) = (command, payload)
      ∧ (entry.mode, entry.status) = (service.worker.sequencer.mode.name,
          (service.worker.sequencer.step entry.event).answer.status)
      ∧ (service.visit v).worker.sequencer = (service.worker.sequencer.step entry.event).state
      ∧ Keeps (service.visit v) { j with entries := j.entries ++ [entry] } := by
  cases v with
  | tick | inspect | snapshot => cases hv
  | frame now bytes =>
    have hparse : Frame.parse bytes = .ok (command, payload) := by
      have hoption := (toOption_parse now bytes).trans hv
      cases hframe : Frame.parse bytes with
      | error e =>
        rw [hframe] at hoption
        cases hoption
      | ok found =>
        rw [hframe] at hoption
        exact congrArg Except.ok (Option.some.inj hoption)
    refine ⟨⟨j.entries.length + 1, now, command, payload, service.worker.sequencer.mode.name,
      (service.worker.sequencer.step (.command command payload)).answer.status⟩, rfl, rfl, rfl, ?_⟩
    obtain ⟨performed, hperformed⟩ : ∃ performed : Service, performed = { service with
        worker := { service.worker with
          sequencer := (service.worker.sequencer.step (.command command payload)).state } } := ⟨_, rfl⟩
    have hjournal : performed.journal = some j := by
      rw [hperformed]
      exact h.journal
    have hvisit : service.visit (.frame now bytes)
        = performed.recorded now command payload service.worker.sequencer.mode
            (service.worker.sequencer.step (.command command payload)).answer.status := by
      show (service.handleFrame now bytes).service = _
      unfold handleFrame perform
      rw [hparse, hperformed]
      dsimp only
      rw [Worker.perform_of_serving h.serving, commandTask_eq]
      rfl
    rw [hvisit, recorded_of_open hjournal h.isOpen, hperformed]
    exact ⟨rfl, h.serving, rfl, h.isOpen⟩

/-- **Any other visit** enters nothing into the journal, and changes nothing but the place of playback. -/
theorem keeps_of_none (h : Keeps service j) {v : Visit} (hv : v.command? = none) :
    (service.visit v).worker.sequencer.draft = service.worker.sequencer.draft ∧ Keeps (service.visit v) j := by
  cases v with
  | frame now bytes =>
    have hoption := (toOption_parse now bytes).trans hv
    have hvisit : service.visit (.frame now bytes) = service := by
      show (service.handleFrame now bytes).service = service
      unfold handleFrame
      cases hframe : Frame.parse bytes with
      | error e => rfl
      | ok found =>
        rw [hframe] at hoption
        cases hoption
    rw [hvisit]
    exact ⟨rfl, h⟩
  | tick hook =>
    have hvisit : service.visit (.tick hook) = { service with
        worker := { service.worker with sequencer := (service.worker.sequencer.step .tick).state } } := by
      show { service with worker := (Ticker.step service.worker hook).worker } = _
      rw [Ticker.worker_step h.serving]
    rw [hvisit]
    exact ⟨Sequencer.draft_tick _, h.serving, h.journal, h.isOpen⟩
  | inspect =>
    have hvisit : service.visit .inspect = service := perform_look h.serving _
    rw [hvisit]
    exact ⟨rfl, h⟩
  | snapshot =>
    have hvisit : service.visit .snapshot = service := perform_look h.serving _
    rw [hvisit]
    exact ⟨rfl, h⟩

/-! ## Visits in turn -/

/-- **A run of visits.** By induction on the visits: the sequencer that replays the entries has the draft of the one
that the visits are made to, so that a command comes to the same for both. -/
theorem visited_tells (h : Keeps service j) {s : Sequencer} (hs : s.draft = service.worker.sequencer.draft)
    (visits : List Visit) :
    ∃ entries, Keeps (service.visited visits) { j with entries := j.entries ++ entries }
      ∧ entries.map (fun e => (e.command, e.payload)) = visits.filterMap Visit.command?
      ∧ entries.map (·.id) = List.range' (j.entries.length + 1) entries.length
      ∧ s.replay entries = entries.map (fun e => (e.mode, e.status))
      ∧ (s.after (entries.map Journal.Entry.event)).draft = (service.visited visits).worker.sequencer.draft := by
  induction visits generalizing service j s with
  | nil => exact ⟨[], by rwa [List.append_nil], rfl, rfl, rfl, hs⟩
  | cons v visits ih =>
    have hvisited : service.visited (v :: visits) = (service.visit v).visited visits := rfl
    cases hv : v.command? with
    | none =>
      obtain ⟨hdraft, hkeeps⟩ := keeps_of_none h hv
      rw [hvisited, List.filterMap_cons_none hv]
      exact ih hkeeps (hs.trans hdraft.symm)
    | some found =>
      obtain ⟨command, payload⟩ := found
      obtain ⟨entry, hid, hcommand, htold, hstep, hkeeps⟩ := keeps_of_command h hv
      have hedit : (s.step entry.event).edit = (service.worker.sequencer.step entry.event).edit :=
        Sequencer.edit_eq_of_draft_eq hs (by rintro ⟨⟩)
      have hanswer : (s.step entry.event).answer = (service.worker.sequencer.step entry.event).answer :=
        congrArg Sequencer.Edit.answer hedit
      have hdraft : (s.step entry.event).state.draft = (service.visit v).worker.sequencer.draft := by
        rw [hstep]
        exact congrArg Sequencer.Edit.draft hedit
      have hmode : s.mode = service.worker.sequencer.mode := congrArg Sequencer.Draft.mode hs
      obtain ⟨entries, hlast, hcommands, hids, hreplay, hend⟩ := ih hkeeps hdraft
      rw [hvisited, List.filterMap_cons_some hv]
      refine ⟨entry :: entries, ?_, ?_, ?_, ?_, hend⟩
      · simpa using hlast
      · rw [List.map_cons, hcommand, hcommands]
      · rw [List.map_cons, hid, hids, List.length_cons, List.range'_succ, List.length_append]
        rfl
      · rw [Sequencer.replay, hreplay, List.map_cons, htold, hmode, hanswer]

end Service

/-- **The journal accounts for visits** that led to the service from the sequencer `s` and a journal with the entries
`earlier`. -/
structure Service.Accounts (s : Sequencer) (earlier : List Journal.Entry) (visits : List Service.Visit)
    (service : Service) (entries : List Journal.Entry) : Prop where
  /-- The entries can be had, and all of them, by a limit that is no less than their count. -/
  listed : ∃ j, service.journal = some j ∧ j.count = .ok (earlier ++ entries).length ∧
    ∀ limit : Int, (earlier ++ entries).length ≤ limit → j.recent limit = .ok (earlier ++ entries)
  /-- There is one entry for each command, in order, and no other. -/
  commands : entries.map (fun e => (e.command, e.payload)) = visits.filterMap Service.Visit.command?
  numbered : entries.map (·.id) = List.range' (earlier.length + 1) entries.length
  tells : Journal.Tells s entries service.worker.sequencer

/-- **The journal replays.** From any sequencer on, with an open journal, and whatever visits are made one at a
time. -/
theorem journal_replays (s : Sequencer) {j : Journal} (hopen : j.isOpen = true) (visits : List Service.Visit) :
    ∃ entries, Service.Accounts s j.entries visits
      (Service.visited ⟨{ sequencer := s }, some j⟩ visits) entries := by
  have hkeeps : Service.Keeps ⟨{ sequencer := s }, some j⟩ j := ⟨rfl, rfl, hopen⟩
  obtain ⟨entries, hlast, hcommands, hids, hreplay, hdraft⟩ := Service.visited_tells hkeeps (s := s) rfl visits
  refine ⟨entries, ⟨_, hlast.journal, Journal.count_of_open hopen, ?_⟩, hcommands, hids, ?_⟩
  · intro limit hlimit
    exact Journal.recent_of_open (j := { j with entries := j.entries ++ entries }) hopen hlimit
  · exact ⟨hreplay, congrArg Sequencer.Draft.mode hdraft, Sequencer.program_eq_of_draft_eq hdraft,
      congrArg Sequencer.Draft.store hdraft⟩

/-- A sequencer that plays is edited while it ticks: two frames are malformed, one is filled up with zeros, and one
holds an opcode that there is none of. -/
theorem journal_replays_edit_among_ticks :
    ∃ s visits, Sequencer.new { leds := 2, capacity := 9, code := Program.encode [.clear, .delay 3] } = .ok s
      ∧ visits.filterMap Service.Visit.command?
        = [(2, {}), (4, {}), (2, ⟨1, 7, 0, 0⟩), (9, {}), (0, {}), (3, {})]
      ∧ ∃ entries, Service.Accounts s [] visits
          (Service.visited ⟨{ sequencer := s }, some { path := "journal.db" }⟩ visits) entries := by
  have hnew := @new_encode { leds := 2, capacity := 9, code := Program.encode [.clear, .delay 3] }
    [.clear, .delay 3] rfl (by decide)
  refine ⟨_, [.frame 5 [2], .tick fun _ => .ok (), .frame 6 [], .frame 7 [4], .inspect, .frame 8 [2, 1, 7],
    .tick fun _ => .error "lost", .frame 9 [1, 2, 3, 4, 5, 6], .frame 9 [9], .frame 9 [0], .snapshot, .frame 9 [3]],
    hnew, by decide, ?_⟩
  exact journal_replays _ (j := { path := "journal.db" }) rfl _

end StripSequencer
