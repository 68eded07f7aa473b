import Mathlib
import StripSequencer.Control.Run
import StripSequencer.Proofs.ProgramFrame
import StripSequencer.Proofs.TickIndependence

/-!
# `StripSequencer.Proofs.SendSession` — sending a file is one edit session

The control tool opens command entry, reads the words of the assembled program back from its code, sends each
with all four operand bytes, and closes command entry whether or not a word was refused; all the while the
sequencer may tick. What comes of it is that the longest part of the program that can be appended is appended,
and that command entry is left.

## Contents
- `Sequencer.Spacious`, `Reachable.exists_spacious`: there is at least as much left to append as there is room.
- `Sequencer.Appendable`, `appendable_cons`, `offer_cases`: the instructions that are accepted in turn.
- `Control.Site.Shows`, `sendCommand_done`, `sendCommand_refused`: one request among ticks.
- `Control.sendFrom_spec`: the loop over the code, by induction on the instructions that are left in it.
- `Control.Appends`, `send_is_edit_session`: the whole session.
-/

namespace StripSequencer

open Program

namespace Sequencer

/-! ## What is left to append -/

/-- The program of the state is `p`, and what appends may still take is no less than the room behind it. -/
structure Spacious (s : Sequencer) (p : List Instruction) : Prop where
  holds : s.Holds p
  room : s.store.capacity ≤ s.store.remaining + size p

variable {s : Sequencer} {p : List Instruction}

theorem capacity_extended {i : Instruction} (h : ¬ s.Overflows i) :
    (s.extended i).store.capacity = s.store.capacity := by
  apply length_overwrite
  rw [Instruction.length_encode]
  exact Nat.le_of_not_lt fun hlt => h (.inr hlt)

namespace Spacious

theorem enterEdit (h : s.Spacious p) (hm : s.mode ≠ .commandEntry) : s.enterEdit.1.Spacious p where
  holds := h.holds.enterEdit hm
  room := h.room

theorem exitEdit (h : s.Spacious p) (hm : s.mode = .commandEntry) : s.exitEdit.Spacious p where
  holds := h.holds.exitEdit hm
  room := by
    obtain ⟨hcapacity, hremaining⟩ := Store.terminate_frame s.store s.appendCursor
    show Store.capacity ((s.store.terminate s.appendCursor).getD s.store)
      ≤ ((s.store.terminate s.appendCursor).getD s.store).remaining + size p
    rw [hcapacity, hremaining]
    exact h.room

/-- An append takes as much of what remains as of the room. -/
theorem extended (h : s.Spacious p) (hm : s.mode = .commandEntry) {i : Instruction}
    (hfits : ¬ s.Overflows i) : (s.extended i).Spacious (p ++ [i]) where
  holds := h.holds.extended hm hfits
  room := by
    have hle : i.size ≤ s.store.remaining := Nat.le_of_not_lt fun hlt => hfits (.inl hlt)
    have hroom := h.room
    rw [capacity_extended hfits, size_append, size_cons, size_nil]
    show s.store.capacity ≤ s.store.remaining - i.size + _
    omega

/-- **One event.** -/
theorem transition {e : Event} {o : Outcome} (h : s.Spacious p) (ht : Transition s e o) :
    ∃ q, o.state.Spacious q := by
  have hroom := h.room
  have hcapacity := ht.setup_kept.2
  cases ht with
  | unknownCommand | runOn | nothingToRun | unknownOpcode | rejected | noRoom | idle | busy | tooLong
  | corrupt | startEmpty => exact ⟨p, h⟩
  | clear =>
    refine ⟨[], Holds.clear, ?_⟩
    rw [hcapacity]
    exact Nat.le_add_right _ _
  | run hm => exact ⟨p, h.holds.outside (by rw [hm]; decide) nofun rfl, hroom⟩
  | pause hm => exact ⟨p, h.holds.outside hm nofun rfl, hroom⟩
  | enterEdit hm => exact ⟨p, h.enterEdit hm⟩
  | exitEdit hm => exact ⟨p, h.exitEdit hm⟩
  | append hm _ _ hfits => exact ⟨_, h.extended hm hfits⟩
  | tick hm => exact ⟨p, h.holds.outside (by rw [hm]; decide) (by rw [hm]; decide) rfl, hroom⟩
  | load hm hlength hv =>
    obtain ⟨q, rfl⟩ := exists_encode_of_validate hv
    refine ⟨q, Holds.replaced (by rw [hm]; decide), ?_⟩
    rw [hcapacity]
    show s.store.capacity ≤ s.store.capacity - (encode q).length + size q
    rw [length_encode]
    omega
  | start =>
    -- instructions that are laid open take of the room, and nothing of what remains
    refine ⟨_, h.holds.start, ?_⟩
    rw [hcapacity, size_append]
    show s.store.capacity ≤ s.store.remaining + _
    omega

end Spacious

/-- **All runs.** -/
theorem Reachable.exists_spacious (h : Reachable s) : ∃ p, s.Spacious p := by
  refine h.induction (P := fun t => ∃ p, t.Spacious p) ?_ ?_
  · intro setup first hnew
    have hblank : setup.blank.Spacious [] := by
      refine ⟨Holds.of_ended nofun rfl (ended_replicate setup.capacity.toNat), ?_⟩
      show (List.replicate _ _).length ≤ _
      rw [List.length_replicate]
      exact Nat.le_add_right _ _
    exact hblank.transition (new_transition hnew)
  · rintro t e o ⟨p, hp⟩ hrule
    exact hp.transition hrule

/-! ## Offers in turn -/

/-- The instructions of `p` can be appended: the policy lets all of them pass, and they fit behind the
program. -/
def Appendable (s : Sequencer) (p : List Instruction) : Prop :=
  (∀ i ∈ p, rejection? s.rules i = none) ∧ s.program.length + size p ≤ s.store.capacity

instance (s : Sequencer) (p : List Instruction) : Decidable (s.Appendable p) :=
  inferInstanceAs (Decidable ((∀ i ∈ p, rejection? s.rules i = none)
    ∧ s.program.length + size p ≤ s.store.capacity))

/-- The command that offers an instruction; operands that it does not use are zero. -/
def offer (i : Instruction) : Event := .command i.opcode.code (Payload.ofList i.operands)

namespace Spacious

theorem length_program (h : s.Spacious p) : s.program.length = size p := by
  rw [h.holds.program_eq, length_encode]

theorem appendable_nil (h : s.Spacious p) : s.Appendable [] := by
  refine ⟨fun i hi => absurd hi List.not_mem_nil, ?_⟩
  rw [h.length_program, size_nil]
  exact h.holds.size_le_capacity

/-- What remains is never the reason for which an instruction does not fit. -/
theorem overflows_iff (h : s.Spacious p) (hm : s.mode = .commandEntry) (i : Instruction) :
    s.Overflows i ↔ s.store.capacity < size p + i.size := by
  have hcursor := h.holds.aligned hm
  have hroom := h.room
  unfold Overflows
  omega

/-- Whether instructions can be appended is decided one after the other. -/
theorem appendable_cons (h : s.Spacious p) (hm : s.mode = .commandEntry) (i : Instruction)
    (rest : List Instruction) :
    s.Appendable (i :: rest)
      ↔ rejection? s.rules i = none ∧ ¬ s.Overflows i ∧ (s.extended i).Appendable rest := by
  have hoverflows := h.overflows_iff hm i
  unfold Appendable
  rw [List.forall_mem_cons, h.length_program, size_cons]
  constructor
  · rintro ⟨⟨hfirst, hrest⟩, hfits⟩
    have hroom : ¬ s.Overflows i := by
      rw [hoverflows]
      omega
    refine ⟨hfirst, hroom, hrest, ?_⟩
    rw [(h.extended hm hroom).length_program, capacity_extended hroom, size_append, size_cons, size_nil]
    omega
  · rintro ⟨hfirst, hroom, hrest, hfits⟩
    rw [(h.extended hm hroom).length_program, capacity_extended hroom, size_append, size_cons,
      size_nil] at hfits
    exact ⟨⟨hfirst, hrest⟩, by omega⟩

end Spacious

/-- **One offer.** The instruction is appended if it can be, and refused otherwise. -/
theorem offer_cases (hm : s.mode = .commandEntry) (i : Instruction) :
    (rejection? s.rules i = none ∧ ¬ s.Overflows i) ∧ s.step (offer i) = ⟨s.extended i, .done, #[]⟩
      ∨ ¬ (rejection? s.rules i = none ∧ ¬ s.Overflows i) ∧ ∃ why, s.step (offer i) = s.refuse why := by
  have hread : Instruction.ofPayload i.opcode (Payload.ofList i.operands) = i := by cases i <;> rfl
  have hbyte := Opcode.ofByte?_code i.opcode
  cases hr : rejection? s.rules i with
  | some why =>
    have hrule : Transition s (offer i) (s.refuse why) := .rejected hm hbyte (by rw [hread, hr])
    exact .inr ⟨fun hpass => Option.some_ne_none why hpass.1, why, hrule.step_eq⟩
  | none =>
    by_cases hfits : s.Overflows i
    · have hrule : Transition s (offer i) _ := .noRoom hm hbyte (by rw [hread, hr]) (by rwa [hread])
      exact .inr ⟨fun hpass => hpass.2 hfits, _, hrule.step_eq⟩
    · have hrule : Transition s (offer i) _ := .append hm hbyte (by rw [hread, hr]) (by rwa [hread])
      rw [hread] at hrule
      exact .inl ⟨⟨rfl, hfits⟩, hrule.step_eq⟩

/-- The first `n` instructions of `program` can be appended, and no more of them. -/
structure TakesFirst (s : Sequencer) (program : List Instruction) (n : Nat) : Prop where
  le_length : n ≤ program.length
  appendable_iff : ∀ m ≤ program.length, s.Appendable (program.take m) ↔ m ≤ n

namespace TakesFirst

variable {i : Instruction} {rest : List Instruction} {n : Nat}

theorem nil (h : s.Spacious p) : s.TakesFirst [] 0 where
  le_length := Nat.le_refl 0
  appendable_iff m hm := iff_of_true (by rw [List.take_nil]; exact h.appendable_nil) hm

/-- The first instruction is refused. -/
theorem stop (h : s.Spacious p) (hm : s.mode = .commandEntry)
    (hrefused : ¬ (rejection? s.rules i = none ∧ ¬ s.Overflows i)) : s.TakesFirst (i :: rest) 0 where
  le_length := Nat.zero_le _
  appendable_iff m _ := by
    cases m with
    | zero => exact iff_of_true h.appendable_nil (Nat.le_refl 0)
    | succ m =>
      rw [List.take_succ_cons, h.appendable_cons hm]
      exact iff_of_false (fun hall => hrefused ⟨hall.1, hall.2.1⟩) (Nat.not_succ_le_zero m)

/-- The first instruction is appended. -/
theorem cons (h : s.Spacious p) (hm : s.mode = .commandEntry) (hallowed : rejection? s.rules i = none)
    (hfits : ¬ s.Overflows i) (hrest : (s.extended i).TakesFirst rest n) :
    s.TakesFirst (i :: rest) (n + 1) where
  le_length := Nat.succ_le_succ hrest.le_length
  appendable_iff m hle := by
    cases m with
    | zero => exact iff_of_true h.appendable_nil (Nat.zero_le _)
    | succ m =>
      rw [List.take_succ_cons, h.appendable_cons hm, hrest.appendable_iff m (Nat.le_of_succ_le_succ hle),
        Nat.succ_le_succ_iff]
      exact ⟨fun hall => hall.2.2, fun hmn => ⟨hallowed, hfits, hmn⟩⟩

end TakesFirst

end Sequencer

/-! ## One request -/

/-- The status of a refusal is never that of an accepted command. -/
theorem Status.ofFailure_ne_ok (why : Refusal) : Status.ofFailure why.failure ≠ Status.ok := by
  have hcause : Status.ofFailure why.failure = why.cause.text := by cases why <;> rfl
  rw [hcause]
  cases why.cause <;> decide

theorem Worker.perform_of_serving {α : Type} {w : Worker} (h : w.stopped = false) (task : Task α) :
    w.perform task = ⟨{ w with sequencer := (task w.sequencer).state }, (task w.sequencer).calls,
      (task w.sequencer).value.mapError .brokeOff⟩ :=
  if_neg (by rw [h]; decide)

/-- A tick is a step of the sequencer, whatever comes of the hook after it. -/
theorem Ticker.worker_step {w : Worker} (h : w.stopped = false) (hook : Hook) :
    (step w hook).worker = { w with sequencer := (w.sequencer.step .tick).state } := by
  unfold step
  rw [Worker.perform_of_serving h]
  rfl

/-- Ticks change nothing of a worker's state but the place of playback. -/
theorem Ticker.ticks_draft (n : Nat) {w : Worker} (h : w.stopped = false) :
    (ticks n w).1.stopped = false ∧ (ticks n w).1.sequencer.draft = w.sequencer.draft := by
  induction n generalizing w with
  | zero => exact ⟨h, rfl⟩
  | succ n ih =>
    have hstep : (step w).worker = { w with sequencer := (w.sequencer.step .tick).state } := worker_step h _
    have hstopped : (step w).worker.stopped = false := by rw [hstep]; exact h
    obtain ⟨hstill, hdraft⟩ := ih hstopped
    refine ⟨hstill, hdraft.trans ?_⟩
    rw [hstep]
    exact Sequencer.draft_tick w.sequencer

/-- The status that answers a command. -/
def Sequencer.Answer.status : Answer → String
  | .done | .ticked _ => Status.ok
  | .refused why => Status.ofFailure why.failure

namespace Service

/-- The journal has no part in what the worker does. -/
theorem worker_recorded (service : Service) (now : Int64) (command : UInt8) (payload : Payload) (mode : Mode)
    (status : String) : (service.recorded now command payload mode status).worker = service.worker := by
  unfold recorded
  split
  · rfl
  · split
    · rfl
    · rfl

/-- The task of a command is a step of the sequencer. -/
theorem commandTask_eq (command : UInt8) (payload : Payload) (s : Sequencer) :
    commandTask command payload s
      = { state := (s.step (.command command payload)).state
          calls := (s.step (.command command payload)).calls
          value := .ok (s.mode, (s.step (.command command payload)).answer.status) } := by
  have hstep : s.step (.command command payload) = Sequencer.settle (Sequencer.InPlace.handle command payload) s := rfl
  rw [hstep]
  unfold commandTask Sequencer.settle
  cases Sequencer.InPlace.handle command payload ⟨s, #[]⟩ with
  | ok _ w => rfl
  | error why w => rfl

/-- A frame that is padded with zeros carries the command to the sequencer, and brings back its status. -/
theorem handleFrame_encode (service : Service) (h : service.worker.stopped = false) (now : Int64) (command : UInt8)
    (payload : List UInt8) :
    (service.handleFrame now (Frame.encode command payload)).service.worker
        = { service.worker with
            sequencer := (service.worker.sequencer.step (.command command (Payload.ofList payload))).state }
      ∧ (service.handleFrame now (Frame.encode command payload)).answer
        = .ok (service.worker.sequencer.step (.command command (Payload.ofList payload))).answer.status := by
  have hparse : Frame.parse (Frame.encode command payload) = .ok (command, Payload.ofList payload) := rfl
  unfold handleFrame perform
  rw [hparse]
  dsimp only
  rw [Worker.perform_of_serving h, commandTask_eq]
  exact ⟨worker_recorded .., rfl⟩

end Service

namespace Control

open CommandLine (Transcript)

variable {α β : Type} {o : Options} {site site' : Site} {s t : Sequencer}

theorem bind_of_ok {x : Run α} {f : α → Run β} {a : α} (h : x site = (.ok a, site')) :
    (x >>= f) site = f a site' := by
  show (match x site with | (a, site) => ExceptT.bindCont f a site) = _
  rw [h]
  rfl

theorem get_run (site : Site) : (get : Run Site) site = (.ok site, site) := rfl

theorem set_run (site next : Site) : (set next : Run PUnit) site = (.ok (), next) := rfl

/-- The site is connected to a worker that is not stopped, whose sequencer is in the state `s` as far as
editing is concerned. -/
def Site.Shows (site : Site) (s : Sequencer) : Prop :=
  ∃ service, site.link = .connected service ∧ service.worker.stopped = false
    ∧ service.worker.sequencer.draft = s.draft

/-- A request that is answered, by the service as the ticks before the request left it. -/
theorem request_of_ok {service ticked : Service} (htimeout : 0 < o.timeout.nanoseconds)
    (hlink : site.link = .connected service)
    (hticked : ticked = { service with worker := (Ticker.ticks (site.ticks.headD 0) service.worker).1 })
    (ask : Service → Service.Outcome α) {a : α} (h : (ask ticked).answer = .ok a) :
    ∃ calls, request o ask site
      = (.ok a, { site with link := .connected (ask ticked).service, ticks := site.ticks.tail, calls }) := by
  subst hticked
  have htime : ¬ o.timeout.nanoseconds ≤ 0 := Int64.not_le.mpr htimeout
  refine ⟨site.calls ++ (Ticker.ticks (site.ticks.headD 0) service.worker).2
    ++ (ask { service with worker := (Ticker.ticks (site.ticks.headD 0) service.worker).1 }).calls, ?_⟩
  unfold request
  rw [bind_of_ok (get_run site)]
  dsimp only
  rw [if_neg htime, hlink]
  dsimp only
  rw [bind_of_ok (set_run site _), h]
  rfl

/-- **One command.** The sequencer makes the step of the command, whatever ticks came before it, and the tool
is told the status of the answer. -/
theorem sendCommand_shows (htimeout : 0 < o.timeout.nanoseconds) (h : site.Shows s) {command : UInt8}
    {payload : List UInt8} {event : Sequencer.Event} (hevent : event = .command command (Payload.ofList payload)) :
    ∃ site', site'.Shows (s.step event).state ∧ site'.out = site.out
      ∧ sendCommand o command payload site
        = (if (s.step event).answer.status = Status.ok then .ok ()
            else .error ("command 0x" ++ Hexadecimal.byte command ++ " ignored: "
              ++ (s.step event).answer.status), site') := by
  obtain ⟨service, hlink, hstopped, hdraft⟩ := h
  obtain ⟨ticked, hticked⟩ : ∃ ticked : Service,
      ticked = { service with worker := (Ticker.ticks (site.ticks.headD 0) service.worker).1 } := ⟨_, rfl⟩
  obtain ⟨hrunning, hsame⟩ := Ticker.ticks_draft (site.ticks.headD 0) hstopped
  have hserving : ticked.worker.stopped = false := by rw [hticked]; exact hrunning
  -- the sequencer that is asked differs from `s` in the place of playback only
  have hshown : ticked.worker.sequencer.draft = s.draft := by rw [hticked]; exact hsame.trans hdraft
  have hedit : (ticked.worker.sequencer.step event).edit = (s.step event).edit :=
    Sequencer.edit_eq_of_draft_eq hshown (by rw [hevent]; rintro ⟨⟩)
  have hanswer : (ticked.worker.sequencer.step event).answer = (s.step event).answer :=
    congrArg Sequencer.Edit.answer hedit
  have hstate : (ticked.worker.sequencer.step event).state.draft = (s.step event).state.draft :=
    congrArg Sequencer.Edit.draft hedit
  obtain ⟨hworker, hstatus⟩ := ticked.handleFrame_encode hserving site.now command payload
  rw [← hevent] at hworker hstatus
  rw [hanswer] at hstatus
  obtain ⟨calls, hrequest⟩ := request_of_ok htimeout hlink hticked
    (fun service => service.handleFrame site.now (Frame.encode command payload)) hstatus
  have hshows : Site.Shows { site with
      link := .connected (ticked.handleFrame site.now (Frame.encode command payload)).service
      ticks := site.ticks.tail
      calls } (s.step event).state := by
    refine ⟨_, rfl, ?_, ?_⟩
    · rw [hworker]
      exact hserving
    · rw [hworker]
      exact hstate
  refine ⟨_, hshows, rfl, ?_⟩
  unfold sendCommand
  rw [bind_of_ok (get_run site), bind_of_ok hrequest]
  by_cases hok : (s.step event).answer.status = Status.ok
  · rw [if_pos hok, if_neg (fun hne => hne hok)]
    rfl
  · rw [if_neg hok, if_pos hok]
    rfl

/-- A command that is accepted. -/
theorem sendCommand_done (htimeout : 0 < o.timeout.nanoseconds) (h : site.Shows s) {command : UInt8}
    {payload : List UInt8} {calls : Array Strip.Call}
    (hstep : s.step (.command command (Payload.ofList payload)) = ⟨t, .done, calls⟩) :
    ∃ site', sendCommand o command payload site = (.ok (), site') ∧ site'.Shows t ∧ site'.out = site.out := by
  obtain ⟨site', hshows, hout, hsend⟩ := sendCommand_shows htimeout h rfl
  rw [hstep] at hshows hsend
  exact ⟨site', hsend, hshows, hout⟩

/-- A command that is refused. -/
theorem sendCommand_refused (htimeout : 0 < o.timeout.nanoseconds) (h : site.Shows s) {command : UInt8}
    {payload : List UInt8} {why : Refusal}
    (hstep : s.step (.command command (Payload.ofList payload)) = s.refuse why) :
    ∃ e site', sendCommand o command payload site = (.error e, site') ∧ site'.Shows s
      ∧ site'.out = site.out := by
  obtain ⟨site', hshows, hout, hsend⟩ := sendCommand_shows htimeout h rfl
  rw [hstep] at hshows hsend
  have hne : (s.refuse why).answer.status ≠ Status.ok := Status.ofFailure_ne_ok why
  rw [if_neg hne] at hsend
  exact ⟨_, site', hsend, hshows, hout⟩

/-! ## The loop over the code -/

section Loop

variable {code : List UInt8} {offset count : Nat} {whole : WholeFrom code offset}

theorem sendFrom_of_ok (hlt : offset < code.length)
    (h : sendWord o (Word.readAt code offset).1 site = (.ok (), site')) :
    sendFrom o code offset count whole site
      = sendFrom o code (offset + (Word.readAt code offset).2) (count + 1) (whole.next hlt) site' := by
  rw [sendFrom, dif_pos hlt, h]

theorem sendFrom_of_error (hlt : offset < code.length) {e : String}
    (h : sendWord o (Word.readAt code offset).1 site = (.error e, site')) :
    sendFrom o code offset count whole site = (.ok (count, some e), site') := by
  rw [sendFrom, dif_pos hlt, h]

end Loop

/-- **The loop.** By induction on the instructions that are left in the code: each is read back as it was
written, and is the last one if it is refused. -/
theorem sendFrom_spec (htimeout : 0 < o.timeout.nanoseconds) {code : List UInt8} (rest : List Instruction)
    {offset : Nat} (hcode : code.drop offset = encode rest) (count : Nat) (whole : WholeFrom code offset)
    {p : List Instruction} (hs : s.Spacious p) (hm : s.mode = .commandEntry) (h : site.Shows s) :
    ∃ n failure site' t, sendFrom o code offset count whole site = (.ok (count + n, failure), site')
      ∧ site'.Shows t ∧ site'.out = site.out ∧ t.mode = .commandEntry ∧ t.Spacious (p ++ rest.take n)
      ∧ s.TakesFirst rest n ∧ (failure = none ↔ n = rest.length) := by
  induction rest generalizing offset count site s p with
  | nil =>
    have hend : ¬ offset < code.length := by
      have hle := List.drop_eq_nil_iff.mp hcode
      omega
    refine ⟨0, none, site, s, ?_, h, rfl, hm, ?_, .nil hs, by simp⟩
    · rw [sendFrom, dif_neg hend]
      rfl
    · rwa [List.take_nil, List.append_nil]
  | cons i rest ih =>
    have hread : Instruction.read? (code.drop offset) = some (i, encode rest) := by
      rw [hcode, encode_cons, Instruction.read?_encode_append]
    have hword := Word.readAt_of_read? hread
    have hlt : offset < code.length := by
      apply Nat.lt_of_not_le
      intro hle
      rw [List.drop_eq_nil_of_le hle] at hread
      cases hread
    have hnext : code.drop (offset + (Word.readAt code offset).2) = encode rest := by
      rw [hword, ← List.drop_drop, hcode, encode_cons, ← Instruction.length_encode]
      exact List.drop_left
    -- the operand bytes that the instruction does not use are sent as zeros
    have hsent : Sequencer.offer i
        = .command i.opcode.code (Payload.ofList (Word.ofInstruction i).operands.toList) := rfl
    rcases Sequencer.offer_cases hm i with ⟨⟨hallowed, hfits⟩, hstep⟩ | ⟨hrefused, why, hstep⟩
    · obtain ⟨middle, hsend, hshows, hout⟩ := sendCommand_done htimeout h (hsent ▸ hstep)
      rw [sendFrom_of_ok hlt (by rw [hword]; exact hsend)]
      obtain ⟨n, failure, site', t, hloop, hshows', hout', hm', hs', htakes, hfailure⟩ :=
        ih hnext (count + 1) (whole.next hlt) (hs.extended hm hfits) hm hshows
      refine ⟨n + 1, failure, site', t, ?_, hshows', hout'.trans hout, hm', ?_,
        .cons hs hm hallowed hfits htakes, ?_⟩
      · rw [hloop, Nat.add_assoc, Nat.add_comm 1 n]
      · rwa [List.take_succ_cons, List.append_cons]
      · rw [hfailure, List.length_cons, Nat.succ_inj]
    · obtain ⟨e, middle, hsend, hshows, hout⟩ := sendCommand_refused htimeout h (hsent ▸ hstep)
      refine ⟨0, some e, middle, s, ?_, hshows, hout, hm, ?_, .stop hs hm hrefused, by simp⟩
      · exact sendFrom_of_error hlt (by rw [hword]; exact hsend)
      · rwa [List.take_zero, List.append_nil]

/-! ## The whole session -/

/-- What the tool leaves behind when it has sent the first `n` instructions of a program to a sequencer in the
state `s`: they stand behind the program that was there, the sequencer is paused, and stays so however often
it ticks, and the tool says how many they are, and fails unless they are all. -/
structure Sent (s : Sequencer) (program : List Instruction) (n : Nat) (transcript : Transcript) (site : Site) :
    Prop where
  sequencer : ∃ service, site.link = .connected service ∧ service.worker.stopped = false
    ∧ ∀ k, (Ticker.ticks k service.worker).1.sequencer.mode = .paused
      ∧ (Ticker.ticks k service.worker).1.sequencer.program = s.program ++ encode (program.take n)
  out_eq : transcript.out = "appended " ++ toString n ++ " instructions\n"
  exit_eq_zero_iff : transcript.exit = 0 ↔ n = program.length

/-- What is shown of a sequencer stays while it ticks. -/
theorem Site.Shows.ticking (h : site.Shows s) :
    ∃ service, site.link = .connected service ∧ service.worker.stopped = false
      ∧ ∀ k, (Ticker.ticks k service.worker).1.sequencer.mode = s.mode
        ∧ (Ticker.ticks k service.worker).1.sequencer.program = s.program := by
  obtain ⟨service, hlink, hstopped, hdraft⟩ := h
  refine ⟨service, hlink, hstopped, ?_⟩
  intro k
  have hsame := (Ticker.ticks_draft k hstopped).2.trans hdraft
  rw [Sequencer.eq_moved_of_draft_eq hsame.symm]
  exact ⟨rfl, rfl⟩

theorem contentOf_run {path : String} {data : List UInt8} (h : site.files.read path = .ok data) :
    contentOf path site = (.ok data, site) := by
  unfold contentOf
  rw [bind_of_ok (get_run site), h]
  rfl

theorem print_run (site : Site) (text : String) :
    print text site = (.ok (), { site with out := site.out ++ text }) := rfl

/-- The session: command entry is opened, the loop runs, and command entry is closed whatever came of it. -/
theorem sendFile_spec (htimeout : 0 < o.timeout.nanoseconds) {path : String} {data : List UInt8}
    {program p : List Instruction} (hfile : site.files.read path = .ok data)
    (hprogram : Assembly.assembleProgram (Text.ofBytes data) = .ok program) (hs : s.Spacious p)
    (hm : s.mode ≠ .commandEntry) (h : site.Shows s) :
    ∃ n failure site' t, s.TakesFirst program n ∧ (failure = none ↔ n = program.length)
      ∧ sendFile o path site = ((match failure with | none => .ok () | some e => .error e), site')
      ∧ site'.Shows t ∧ site'.out = site.out ++ ("appended " ++ toString n ++ " instructions\n")
      ∧ t.mode = .paused ∧ t.program = s.program ++ encode (program.take n) := by
  have hopening : s.step (.command Command.enterEdit.code (Payload.ofList []))
      = ⟨s.enterEdit.1, .done, #[.clear]⟩ := (Sequencer.Transition.enterEdit hm rfl).step_eq
  obtain ⟨opened, hopen, hshows, hout⟩ := sendCommand_done htimeout h hopening
  obtain ⟨n, failure, looped, t, hloop, hshows', hout', hm', hs', htakes, hfailure⟩ :=
    sendFrom_spec htimeout program List.drop_zero 0 (wholeFrom_encode program) (hs.enterEdit hm) rfl hshows
  have hclosing : t.step (.command terminator (Payload.ofList [])) = ⟨t.exitEdit, .done, #[]⟩ :=
    (Sequencer.Transition.exitEdit hm').step_eq
  obtain ⟨closed, hclose, hshows'', hout''⟩ := sendCommand_done htimeout hshows' hclosing
  refine ⟨n, failure, { closed with out := closed.out ++ ("appended " ++ toString n ++ " instructions\n") },
    t.exitEdit, ?_, hfailure, ?_, hshows'', ?_, rfl, ?_⟩
  · -- opening command entry changes neither the program nor what can be appended to it
    refine ⟨htakes.le_length, ?_⟩
    intro m hle
    have hiff := htakes.appendable_iff m hle
    unfold Sequencer.Appendable at hiff ⊢
    rwa [(hs.enterEdit hm).length_program, ← hs.length_program] at hiff
  · unfold sendFile
    rw [bind_of_ok (contentOf_run hfile), hprogram]
    dsimp only
    rw [bind_of_ok hopen, bind_of_ok hloop, bind_of_ok hclose, bind_of_ok (print_run closed _), Nat.zero_add]
    cases failure with
    | none => rfl
    | some e => rfl
  · show closed.out ++ _ = _
    rw [hout'', hout', hout]
  · rw [(hs'.exitEdit hm').holds.program_eq, hs.holds.program_eq, encode_append]

/-- **Sending a file is one edit session.** From every reachable state outside command entry, and whatever
ticks come before, between and after the requests. -/
theorem send_is_edit_session {service : Service} {path : String} {data : List UInt8}
    (htimeout : 0 < o.timeout.nanoseconds) (hlink : site.link = .connected service)
    (hstopped : service.worker.stopped = false) (hs : service.worker.sequencer.Reachable)
    (hm : service.worker.sequencer.mode ≠ .commandEntry) (hfile : site.files.read path = .ok data) :
    (∀ program, Assembly.assembleProgram (Text.ofBytes data) = .ok program →
      ∃ n, service.worker.sequencer.TakesFirst program n
        ∧ Sent service.worker.sequencer program n (Verb.send.transcript o [path] site).1
            (Verb.send.transcript o [path] site).2)
      ∧ ∀ e, Assembly.assembleProgram (Text.ofBytes data) = .error e →
        Verb.send.transcript o [path] site = (.failed (path ++ ": " ++ e.message), { site with out := "" }) := by
  have hfresh : Site.Shows { site with out := "" } service.worker.sequencer := ⟨service, hlink, hstopped, rfl⟩
  have hcontent : { site with out := "" }.files.read path = .ok data := hfile
  constructor
  · intro program hprogram
    obtain ⟨p, hp⟩ := hs.exists_spacious
    obtain ⟨n, failure, site', t, htakes, hfailure, hsend, hshows, hout, hpaused, hextended⟩ :=
      sendFile_spec htimeout hcontent hprogram hp hm hfresh
    have hperform : Verb.send.perform o [path] { site with out := "" } = _ := hsend
    obtain ⟨service', hlink', hstopped', hticks⟩ := hshows.ticking
    rw [hpaused, hextended] at hticks
    rw [String.empty_append] at hout
    refine ⟨n, htakes, ?_⟩
    unfold Verb.transcript
    rw [hperform]
    cases failure with
    | none => exact ⟨⟨service', hlink', hstopped', hticks⟩, hout, iff_of_true rfl (hfailure.mp rfl)⟩
    | some e =>
      have hpart : n ≠ program.length := by
        intro hall
        cases hfailure.mpr hall
      exact ⟨⟨service', hlink', hstopped', hticks⟩, hout, iff_of_false Nat.one_ne_zero hpart⟩
  · intro e hfailed
    have hsend : Verb.send.perform o [path] { site with out := "" }
        = (.error (path ++ ": " ++ e.message), { site with out := "" }) := by
      show sendFile o path { site with out := "" } = _
      unfold sendFile
      rw [bind_of_ok (contentOf_run hcontent), hfailed]
      rfl
    unfold Verb.transcript
    rw [hsend]

/-- A file with three instructions is sent to a sequencer that plays, and that ticks now and then. The second
one lies beyond the strip and is refused, so only the first one is appended. -/
theorem send_to_playing_sequencer :
    ∃ (site : Site) (service : Service), site.link = .connected service ∧ site.ticks = [2, 0, 1]
      ∧ service.worker.sequencer.mode = .running
      ∧ Sent service.worker.sequencer [.delay 5, .pixel 9 1 2 3, .clear] 1
          (Verb.send.transcript {} ["p"] site).1 (Verb.send.transcript {} ["p"] site).2 := by
  obtain ⟨s, hreach, hmode, hfirst, hsecond⟩ : ∃ s : Sequencer, s.Reachable ∧ s.mode = .running
      ∧ s.Appendable [.delay 5] ∧ ¬ s.Appendable [.delay 5, .pixel 9 1 2 3] := by
    have hnew := @new_encode { leds := 2, capacity := 9, policy := .reject, code := encode [.clear, .delay 3] }
      [.clear, .delay 3] rfl (by decide)
    exact ⟨_, Sequencer.Reachable.of_run hnew [.start], by decide, by decide, by decide⟩
  obtain ⟨files, data, hfile, hprogram⟩ : ∃ (files : FileTree) (data : List UInt8), files.read "p" = .ok data
      ∧ Assembly.assembleProgram (Text.ofBytes data) = .ok [.delay 5, .pixel 9 1 2 3, .clear] := by
    refine ⟨{ nodes := [(["p"], .file "delay 5\npixel 9 1 2 3\nclear\n".toUTF8.toList)] },
      "delay 5\npixel 9 1 2 3\nclear\n".toUTF8.toList, ?_, ?_⟩
    · cbv
    · cbv
  let site : Site := { link := .connected { worker := { sequencer := s } }, files, ticks := [2, 0, 1] }
  have htimeout : 0 < ({} : Options).timeout.nanoseconds := by decide
  have hlink : site.link = .connected { worker := { sequencer := s } } := rfl
  have hread : site.files.read "p" = .ok data := hfile
  obtain ⟨n, htakes, hsent⟩ :=
    (send_is_edit_session htimeout hlink rfl hreach (by rw [hmode]; decide) hread).1 _ hprogram
  have hone : 1 ≤ n := (htakes.appendable_iff 1 (by decide)).mp hfirst
  have htwo : ¬ 2 ≤ n := fun hle => hsecond ((htakes.appendable_iff 2 (by decide)).mpr hle)
  obtain rfl : n = 1 := by omega
  exact ⟨site, _, hlink, rfl, hmode, hsent⟩

end Control

end StripSequencer
