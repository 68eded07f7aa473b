import StripSequencer.Proofs.Moves
import StripSequencer.Proofs.Playback

/-!
# `StripSequencer.Proofs.Pacing` — delays set the pace of playback

A delay ends the tick that executes it. The ticks after it count it down, and the tick that would bring it to
zero goes on with playback, so delays of 0 and of 1 both let the next tick go on. Commands that leave playback
on may stand anywhere between the ticks. Of a program of delays only, it follows on which tick each delay of
each round is executed.

## Contents
- `Event.Interrupts`: the events that end playback; `after_eq_ticks`: of the others only the ticks count.
- `Sequencer.moves`: the moves of the next tick; `state_of_delay_mem`: the state after one that executes a delay.
- `countdown`: the ticks after a delay; `Paced`: what one of them does; `paced`.
- `Due`, `Due.fires`, `Due.succ`, `Due.round`: a program of delays, from one delay to the next; `due`: all of them.
- `delays_pace_playback`.
-/

namespace StripSequencer

open Program

namespace Sequencer

/-! ## Playback that goes on -/

/-- The event ends playback: it is a clear, a pause or a switch to command entry. A load is refused while
playback is on, and a start leaves it on. -/
def Event.Interrupts : Event → Prop
  | .command b _ => Command.ofByte? b ≠ none ∧ Command.ofByte? b ≠ some .run
  | .tick | .load _ | .start => False

instance (e : Event) : Decidable e.Interrupts :=
  match e with
  | .command b _ => inferInstanceAs (Decidable (Command.ofByte? b ≠ none ∧ Command.ofByte? b ≠ some .run))
  | .tick | .load _ | .start => .isFalse id

/-- A number of ticks with nothing between them. -/
def ticks (count : Nat) : List Event := List.replicate count .tick

theorem ticks_succ (count : Nat) : ticks (count + 1) = .tick :: ticks count := rfl

theorem ticks_add (count more : Nat) : ticks (count + more) = ticks count ++ ticks more :=
  List.replicate_append_replicate.symm

theorem executed_cons (s : Sequencer) (e : Event) (events : List Event) :
    s.executed (e :: events) = (s.step e).answer.report.executed + (s.step e).state.executed events := rfl

theorem executed_append (s : Sequencer) (events more : List Event) :
    s.executed (events ++ more) = s.executed events + (s.after events).executed more := by
  induction events generalizing s with
  | nil => exact (Nat.zero_add _).symm
  | cons e events ih =>
    rw [List.cons_append, executed_cons, executed_cons, ih, after_cons, Nat.add_assoc]

/-- **Only ticks count while playback is on.** Any other event that does not end it leaves the state as it is. -/
theorem Transition.kept_of_running {s : Sequencer} {e : Event} {o : Outcome} (h : Transition s e o)
    (hm : s.mode = .running) (he : ¬ e.Interrupts) (htick : e ≠ .tick) :
    o.state = s ∧ o.answer.report = {} := by
  have hset : { s with mode := .running } = s := by rw [← hm]
  cases h with
  | unknownCommand | runOn | busy => exact ⟨rfl, rfl⟩
  | clear _ hb | pause _ hb | enterEdit _ hb => exact absurd ⟨by simp [hb], by simp [hb]⟩ he
  | nothingToRun hm' | run hm' | exitEdit hm' | unknownOpcode hm' | rejected hm' | noRoom hm' | append hm'
  | tooLong hm' | corrupt hm' | load hm' => exact absurd (hm.symm.trans hm') (by decide)
  | tick | idle => exact absurd rfl htick
  | startEmpty hm' => exact absurd hm hm'
  | start => exact ⟨hset, rfl⟩

/-- The state with playback at another place. -/
def placed (s : Sequencer) (position : Player.Position) : Sequencer := { s with position }

@[simp] theorem placed_rules (s : Sequencer) (p : Player.Position) : (s.placed p).rules = s.rules := rfl

@[simp] theorem placed_store (s : Sequencer) (p : Player.Position) : (s.placed p).store = s.store := rfl

@[simp] theorem placed_mode (s : Sequencer) (p : Player.Position) : (s.placed p).mode = s.mode := rfl

@[simp] theorem placed_position (s : Sequencer) (p : Player.Position) : (s.placed p).position = p := rfl

@[simp] theorem placed_placed (s : Sequencer) (p q : Player.Position) : (s.placed p).placed q = s.placed q := rfl

@[simp] theorem placed_self (s : Sequencer) : s.placed s.position = s := rfl

/-- A tick changes the place of playback only. -/
theorem state_tick {s : Sequencer} (hm : s.mode = .running) :
    (s.step .tick).state = s.placed (Player.tick s.rules s.store.code s.position).position := by
  rw [step_tick_running hm]
  rfl

theorem report_tick {s : Sequencer} (hm : s.mode = .running) :
    (s.step .tick).answer.report = (Player.tick s.rules s.store.code s.position).report := by
  rw [step_tick_running hm]
  rfl

/-- A run of playback comes to the same as its ticks alone. -/
theorem after_eq_ticks {s : Sequencer} (hm : s.mode = .running) {events : List Event}
    (h : ∀ e ∈ events, ¬ e.Interrupts) :
    s.after events = s.after (ticks (events.count .tick))
      ∧ s.executed events = s.executed (ticks (events.count .tick)) := by
  induction events generalizing s with
  | nil => exact ⟨rfl, rfl⟩
  | cons e events ih =>
    have hlater : ∀ e ∈ events, ¬ e.Interrupts := fun d hd => h d (List.mem_cons_of_mem e hd)
    by_cases htick : e = .tick
    · subst htick
      have hon : (s.step .tick).state.mode = .running := by
        rw [state_tick hm]
        exact hm
      obtain ⟨hafter, hexecuted⟩ := ih hon hlater
      rw [List.count_cons_self, ticks_succ, after_cons, after_cons, executed_cons, executed_cons]
      exact ⟨hafter, by rw [hexecuted]⟩
    · obtain ⟨hkept, hreport⟩ := (s.step_transition e).kept_of_running hm (h e List.mem_cons_self) htick
      obtain ⟨hafter, hexecuted⟩ := ih hm hlater
      rw [List.count_cons_of_ne htick, after_cons, executed_cons, hkept, hreport]
      exact ⟨hafter, (Nat.zero_add _).trans hexecuted⟩

/-! ## The ticks after a delay -/

/-- The moves of the next tick: as many as it reports, from the cursor on. -/
def moves (s : Sequencer) : List Player.Move :=
  Player.route s.store.code
    ((s.step .tick).answer.report.executed + (s.step .tick).answer.report.wrapped) s.position.cursor

theorem moves_eq {s : Sequencer} (hm : s.mode = .running) :
    s.moves = Player.movesOf s.rules s.store.code s.position := by
  unfold moves
  rw [report_tick hm]
  rfl

/-- Where the last move of the next tick is made. -/
def lastOffset (s : Sequencer) : Nat := Player.arrival s.position.cursor s.moves.dropLast

/-- The number of ticks from the one that executes a delay to the one that goes on. -/
def span (n : UInt8) : Nat := max n.toNat 1

end Sequencer

namespace Player

variable {rules : Rules} {code : List UInt8} {p : Position}

/-- A tick that does not wait begins with the move at the cursor. -/
theorem head?_movesOf (code : List UInt8) (h : ¬ 1 < p.delay) (hbound : 0 < rules.maxSteps) :
    (movesOf rules code p).head? = some (moveAt code p.cursor) := by
  have hsome : 0 < (tick rules code p).report.executed + (tick rules code p).report.wrapped := by
    rcases (tick_moves rules code h).2 with hcut | hends
    · rw [hcut.exhausted]
      exact hbound
    · exact hends.some_move
  unfold movesOf
  generalize (tick rules code p).report.executed + (tick rules code p).report.wrapped = count at hsome ⊢
  cases count with
  | zero => exact absurd hsome (Nat.lt_irrefl 0)
  | succ count => rfl

/-- **A tick that executes a delay** makes its last move there, and leaves the delay and the cursor behind it. -/
theorem tick_of_delay_mem {n : UInt8} (h : .execute (.delay n) ∈ movesOf rules code p) :
    moveAt code (arrival p.cursor (movesOf rules code p).dropLast) = .execute (.delay n)
      ∧ (tick rules code p).position
        = ⟨arrival p.cursor (movesOf rules code p).dropLast + (Instruction.delay n).size, n⟩
      ∧ 0 < rules.maxSteps := by
  have hready : ¬ 1 < p.delay := by
    intro hpending
    rw [(tick_waits rules code hpending).movesOf_eq] at h
    cases h
  have hexecuted : Instruction.delay n ∈ instructions (movesOf rules code p) :=
    List.mem_filterMap.mpr ⟨_, h, rfl⟩
  obtain ⟨haccounts, hend⟩ := tick_moves rules code hready
  rcases hend with hcut | hends
  · -- a tick that is cut short executes no delay
    exact absurd rfl (hcut.no_delay _ hexecuted)
  · obtain ⟨before, ticks, hlast, hbefore, hdelay⟩ := hends.last
    have hsame : n = ticks := by
      rw [hlast, instructions_append] at hexecuted
      rcases List.mem_append.mp hexecuted with hearly | hfinal
      · exact absurd rfl (hbefore _ hearly)
      · injection List.mem_singleton.mp hfinal
    have hcursor : (tick rules code p).position.cursor = arrival p.cursor before + (Instruction.delay n).size := by
      rw [haccounts.arrives, hlast, hsame]
      simp [arrival, Move.target]
    rw [hlast, List.dropLast_concat]
    refine ⟨?_, ?_, Nat.lt_of_lt_of_le hends.some_move hends.within⟩
    · rw [hsame]
      exact moveAt_of_route_eq hlast
    · rw [← hcursor, hsame, ← hdelay]

end Player

namespace Sequencer

/-- **Counting down.** The ticks after a delay leave everything but the delay as it is, down to a delay of 1. -/
theorem countdown {s : Sequencer} (hm : s.mode = .running) {count : Nat}
    (hcount : count ≤ s.position.delay.toNat - 1) :
    ∃ delay : UInt8, delay.toNat + count = s.position.delay.toNat
      ∧ s.after (ticks count) = s.placed ⟨s.position.cursor, delay⟩ ∧ s.executed (ticks count) = 0 := by
  induction count generalizing s with
  | zero => exact ⟨s.position.delay, rfl, rfl, rfl⟩
  | succ count ih =>
    have hpending : 1 < s.position.delay := by
      rw [Player.pending_iff]
      omega
    have hwaits := Player.tick_waits s.rules s.store.code hpending
    have hfirst := state_tick hm
    have hreport := report_tick hm
    generalize Player.tick s.rules s.store.code s.position = t at hwaits hfirst hreport
    have hless := hwaits.delay
    have hleft : count ≤ (s.placed t.position).position.delay.toNat - 1 := by
      rw [placed_position]
      omega
    obtain ⟨delay, hdelay, hafter, hexecuted⟩ := ih (s.placed_mode t.position ▸ hm) hleft
    rw [placed_position] at hdelay
    refine ⟨delay, by omega, ?_, ?_⟩
    · rw [ticks_succ, after_cons, hfirst, hafter, placed_placed, placed_position, hwaits.cursor]
    · rw [ticks_succ, executed_cons, hfirst, hexecuted, hreport, hwaits.executed]

/-- A tick over a delay that is not over waits. -/
theorem tick_pending {s : Sequencer} (hm : s.mode = .running) (h : 1 < s.position.delay) :
    (s.step .tick).answer.report.waiting = true ∧ (s.step .tick).calls = #[]
      ∧ (s.step .tick).state.position.cursor = s.position.cursor := by
  have hwaits := Player.tick_waits s.rules s.store.code h
  rw [step_tick_running hm]
  exact ⟨hwaits.waiting, hwaits.calls, hwaits.cursor⟩

/-- A tick over a delay that is over, or over none, makes the move at the cursor first. -/
theorem tick_ready {s : Sequencer} (hm : s.mode = .running) (h : ¬ 1 < s.position.delay)
    (hbound : 0 < s.rules.maxSteps) :
    (s.step .tick).answer.report.waiting = false
      ∧ s.moves.head? = some (Player.moveAt s.store.code s.position.cursor) := by
  rw [report_tick hm, moves_eq hm]
  refine ⟨?_, Player.head?_movesOf s.store.code h hbound⟩
  rcases (Player.tick_moves s.rules s.store.code h).2 with hcut | hends
  · exact hcut.waiting
  · exact hends.waiting

/-- The state after a tick that executed a delay. -/
theorem state_of_delay_mem {s : Sequencer} (hm : s.mode = .running) {n : UInt8}
    (h : .execute (.delay n) ∈ s.moves) :
    Player.moveAt s.store.code s.lastOffset = .execute (.delay n)
      ∧ (s.step .tick).state = s.placed ⟨s.lastOffset + (Instruction.delay n).size, n⟩
      ∧ 0 < s.rules.maxSteps := by
  unfold lastOffset
  rw [moves_eq hm] at h ⊢
  obtain ⟨hmove, hposition, hbound⟩ := Player.tick_of_delay_mem h
  rw [state_tick hm, hposition]
  exact ⟨hmove, rfl, hbound⟩

/-- What the tick after some events does, when a delay of `n` was executed just before them. -/
structure Paced (s : Sequencer) (n : UInt8) (events : List Event) : Prop where
  /-- Until the delay is over, ticks wait. -/
  waits : events.count .tick < span n - 1 →
    ((s.after events).step .tick).answer.report.waiting = true ∧ ((s.after events).step .tick).calls = #[]
      ∧ ((s.after events).step .tick).state.position.cursor = s.position.cursor
  /-- The tick after them goes on where playback stands. -/
  goes_on : events.count .tick = span n - 1 →
    ((s.after events).step .tick).answer.report.waiting = false
      ∧ (s.after events).moves.head? = some (Player.moveAt s.store.code s.position.cursor)

/-- **A delay sets the pace.** The events after it come down to their ticks, and these count it down. -/
theorem paced {s : Sequencer} (hm : s.mode = .running) (hbound : 0 < s.rules.maxSteps) {events : List Event}
    (h : ∀ e ∈ events, ¬ e.Interrupts) : s.Paced s.position.delay events := by
  have hspan : span s.position.delay - 1 = s.position.delay.toNat - 1 := by
    unfold span
    omega
  -- the state that the tick meets, and what is left of the delay in it
  have hmet : events.count .tick ≤ s.position.delay.toNat - 1 →
      ∃ delay : UInt8, delay.toNat + events.count .tick = s.position.delay.toNat
        ∧ s.after events = s.placed ⟨s.position.cursor, delay⟩ := by
    intro hcount
    obtain ⟨delay, hdelay, hafter, _⟩ := countdown hm hcount
    exact ⟨delay, hdelay, (after_eq_ticks hm h).1.trans hafter⟩
  constructor
  · intro hcount
    obtain ⟨delay, hdelay, hafter⟩ := hmet (by omega)
    have hpending : 1 < delay := by
      rw [Player.pending_iff]
      omega
    rw [hafter]
    exact tick_pending hm hpending
  · intro hcount
    obtain ⟨delay, hdelay, hafter⟩ := hmet (by omega)
    have hready : ¬ 1 < delay := by
      rw [Player.pending_iff]
      omega
    rw [hafter]
    exact tick_ready hm hready hbound

/-! ## Programs of delays -/

/-- The number of ticks that some delays take. -/
def total (ns : List UInt8) : Nat := (ns.map span).foldr (· + ·) 0

/-- The ticks before delay `i` of round `r` is executed, both counted from 0. -/
def elapsed (ns : List UInt8) (r i : Nat) : Nat := r * total ns + total (ns.take i)

/-- The moves of the tick that executes delay `i` of round `r`: all rounds but the first begin with a wrap. -/
def dueMoves (r i : Nat) (n : UInt8) : List Player.Move :=
  (if i = 0 ∧ r ≠ 0 then [.wrap] else []) ++ [.execute (.delay n)]

/-- The index at which the cursor stands before delay `i` of round `r`. -/
def dueIndex (ns : List UInt8) (r i : Nat) : Nat := if i = 0 ∧ r ≠ 0 then ns.length else i

theorem total_cons (n : UInt8) (ns : List UInt8) : total (n :: ns) = span n + total ns := rfl

/-- One delay more takes its span more. -/
theorem total_take_succ {ns : List UInt8} {i : Nat} {n : UInt8} (h : ns[i]? = some n) :
    total (ns.take (i + 1)) = total (ns.take i) + span n := by
  induction ns generalizing i with
  | nil => cases h
  | cons m ns ih =>
    cases i with
    | zero =>
      cases h
      simp [total]
    | succ i =>
      rw [List.take_succ_cons, List.take_succ_cons, total_cons, total_cons, ih h, Nat.add_assoc]

theorem elapsed_succ {ns : List UInt8} {i : Nat} {n : UInt8} (h : ns[i]? = some n) (r : Nat) :
    elapsed ns r (i + 1) = elapsed ns r i + span n := by
  unfold elapsed
  rw [total_take_succ h, Nat.add_assoc]

/-- A round is over after its last delay. -/
theorem elapsed_round (ns : List UInt8) (r : Nat) : elapsed ns (r + 1) 0 = elapsed ns r ns.length := by
  unfold elapsed
  rw [List.take_length, List.take_zero, Nat.succ_mul]
  rfl

end Sequencer

namespace Player

open Sequencer (dueIndex dueMoves)

variable {rules : Rules} {ns : List UInt8} {rest : List UInt8} {r i : Nat} {n : UInt8}

/-- The move at the offset of a delay. -/
theorem moveAt_delay (hrest : Instruction.read? rest = none) (hn : ns[i]? = some n) :
    moveAt (encode (ns.map .delay) ++ rest) (offset (ns.map .delay) i) = .execute (.delay n) := by
  have hread := Cycle.read?_drop_offset (p := ns.map .delay) hrest i
  rw [List.getElem?_map, hn] at hread
  exact moveAt_of_some hread

/-- The move at the end of the delays. -/
theorem moveAt_end (hrest : Instruction.read? rest = none) :
    moveAt (encode (ns.map .delay) ++ rest) (offset (ns.map .delay) ns.length) = .wrap := by
  have hread := Cycle.read?_drop_offset (p := ns.map .delay) hrest ns.length
  rw [List.getElem?_eq_none (by simp)] at hread
  exact moveAt_of_none hread

/-- **A tick that is due executes one delay.** Before the first delay of a later round the cursor stands at the
end of the program, and the wrap takes a step of its own. -/
theorem tick_due (hrest : Instruction.read? rest = none) (hbound : 2 ≤ rules.maxSteps) {delay : UInt8}
    (hready : ¬ 1 < delay) (hn : ns[i]? = some n) :
    tick rules (encode (ns.map .delay) ++ rest) ⟨offset (ns.map .delay) (dueIndex ns r i), delay⟩
      = ⟨⟨offset (ns.map .delay) (i + 1), n⟩, { executed := 1, wrapped := if i = 0 ∧ r ≠ 0 then 1 else 0 }, #[]⟩ := by
  obtain ⟨bound, hsteps⟩ : ∃ bound, rules.maxSteps = bound + 2 := ⟨rules.maxSteps - 2, by omega⟩
  have hdelay := moveAt_delay hrest hn
  have hnext : offset (ns.map .delay) (i + 1) = offset (ns.map .delay) i + (Instruction.delay n).size :=
    offset_succ (by rw [List.getElem?_map, hn]; rfl)
  rw [tick_of_delay_le hready, hsteps, hnext]
  unfold dueIndex
  by_cases hwrap : i = 0 ∧ r ≠ 0
  · obtain ⟨rfl, hr⟩ := hwrap
    rw [offset_zero] at hdelay ⊢
    rw [if_pos ⟨rfl, hr⟩, if_pos ⟨rfl, hr⟩, steps_move (moveAt_end hrest) (by simp)]
    show Tick.followed _ (steps rules _ (bound + 1) 0) = _
    rw [steps_delay hdelay]
    rfl
  · rw [if_neg hwrap, if_neg hwrap]
    exact steps_delay hdelay (bound + 1)

theorem movesOf_due (hrest : Instruction.read? rest = none) (hbound : 2 ≤ rules.maxSteps) {delay : UInt8}
    (hready : ¬ 1 < delay) (hn : ns[i]? = some n) :
    movesOf rules (encode (ns.map .delay) ++ rest) ⟨offset (ns.map .delay) (dueIndex ns r i), delay⟩
      = dueMoves r i n := by
  have hdelay := moveAt_delay hrest hn
  unfold movesOf
  rw [tick_due hrest hbound hready hn]
  unfold dueIndex dueMoves
  by_cases hwrap : i = 0 ∧ r ≠ 0
  · obtain ⟨rfl, hr⟩ := hwrap
    rw [offset_zero] at hdelay
    simp [route, hr, moveAt_end hrest, Move.target, hdelay]
  · simp only [if_neg hwrap]
    simp [route, hdelay]

end Player

namespace Sequencer

variable {s : Sequencer} {ns : List UInt8} {rest : List UInt8} {r i : Nat} {n : UInt8}

/-- The sequencer plays a program of delays, with a step to spare for the wrap. -/
structure PlaysDelays (s : Sequencer) (ns : List UInt8) (rest : List UInt8) : Prop where
  mode : s.mode = .running
  code : s.store.code = encode (ns.map .delay) ++ rest
  rest : Instruction.read? rest = none
  bound : 2 ≤ s.rules.maxSteps

/-- After its ticks, playback is about to execute delay `i` of round `r`, and all delays before it were
executed once in each round. -/
def Due (s : Sequencer) (ns : List UInt8) (r i : Nat) : Prop :=
  ∃ delay : UInt8, ¬ 1 < delay
    ∧ s.after (ticks (elapsed ns r i)) = s.placed ⟨offset (ns.map .delay) (dueIndex ns r i), delay⟩
    ∧ s.executed (ticks (elapsed ns r i)) = r * ns.length + i

namespace Due

/-- The tick that is due. -/
theorem fires (hs : s.PlaysDelays ns rest) (h : s.Due ns r i) (hn : ns[i]? = some n) :
    (s.after (ticks (elapsed ns r i))).moves = dueMoves r i n
      ∧ ((s.after (ticks (elapsed ns r i))).step .tick).state = s.placed ⟨offset (ns.map .delay) (i + 1), n⟩
      ∧ ((s.after (ticks (elapsed ns r i))).step .tick).answer.report.executed = 1 := by
  obtain ⟨delay, hready, hafter, _⟩ := h
  have hon : (s.after (ticks (elapsed ns r i))).mode = .running := by
    rw [hafter]
    exact hs.mode
  rw [moves_eq hon, state_tick hon, report_tick hon, hafter]
  simp only [placed_rules, placed_store, placed_position, placed_placed, hs.code]
  rw [Player.movesOf_due hs.rest hs.bound hready hn, Player.tick_due hs.rest hs.bound hready hn]
  exact ⟨rfl, rfl, rfl⟩

/-- **From one delay to the next.** The tick that is due executes the delay, and the ticks after it count it
down until the next one is due. -/
theorem succ (hs : s.PlaysDelays ns rest) (h : s.Due ns r i) (hn : ns[i]? = some n) : s.Due ns r (i + 1) := by
  obtain ⟨_, hstate, hone⟩ := h.fires hs hn
  obtain ⟨_, _, _, hexecuted⟩ := h
  obtain ⟨delay, hdelay, hrest, hnone⟩ :=
    @countdown (s.placed ⟨offset (ns.map .delay) (i + 1), n⟩) hs.mode (n.toNat - 1) (Nat.le_refl _)
  have hleft : delay.toNat + (n.toNat - 1) = n.toNat := hdelay
  have hspan : span n = (n.toNat - 1) + 1 := by
    unfold span
    omega
  have hindex : dueIndex ns r (i + 1) = i + 1 := if_neg (by omega)
  refine ⟨delay, ?_, ?_, ?_⟩
  · rw [Player.pending_iff]
    omega
  · rw [elapsed_succ hn, hspan, ticks_add, ticks_succ, after_append, after_cons, hstate, hrest, hindex]
    rfl
  · rw [elapsed_succ hn, hspan, ticks_add, ticks_succ, executed_append, executed_cons, hstate, hexecuted, hone,
      hnone]
    rfl

/-- From the last delay of a round to the first of the next. -/
theorem round (hne : ns ≠ []) (h : s.Due ns r ns.length) : s.Due ns (r + 1) 0 := by
  obtain ⟨delay, hready, hafter, hexecuted⟩ := h
  have hlength : ns.length ≠ 0 := by simpa using hne
  have hindex : dueIndex ns (r + 1) 0 = dueIndex ns r ns.length := by
    unfold dueIndex
    rw [if_pos ⟨rfl, Nat.succ_ne_zero r⟩, if_neg (fun h => hlength h.1)]
  refine ⟨delay, hready, ?_, ?_⟩
  · rw [elapsed_round, hindex, hafter]
  · rw [elapsed_round, hexecuted, Nat.succ_mul, Nat.add_zero]

end Due

/-- **Every delay of every round falls due.** By induction on the rounds, and in a round on the delays. -/
theorem due (hs : s.PlaysDelays ns rest) (hstart : s.position = ⟨0, 0⟩) (hne : ns ≠ []) (r : Nat)
    (hi : i ≤ ns.length) : s.Due ns r i := by
  have hround : ∀ {r}, s.Due ns r 0 → ∀ i ≤ ns.length, s.Due ns r i := by
    intro r hfirst i hi
    induction i with
    | zero => exact hfirst
    | succ i ih => exact (ih (by omega)).succ hs (List.getElem?_eq_getElem (by omega))
  induction r generalizing i with
  | zero =>
    refine hround ?_ i hi
    refine ⟨0, by decide, ?_, ?_⟩
    · simp [elapsed, total, ticks, dueIndex, ← hstart, after]
    · simp [elapsed, total, ticks, executed]
  | succ r ih => exact hround ((ih (Nat.le_refl _)).round hne) i hi

/-- The tick after some events executes delay `i` of round `r` of the program, and nothing else. -/
structure Fires (s : Sequencer) (ns : List UInt8) (r i : Nat) (n : UInt8) (events : List Event) : Prop where
  moves : (s.after events).moves = dueMoves r i n
  cursor : ((s.after events).step .tick).state.position.cursor = offset (ns.map .delay) (i + 1)
  /-- What was executed before are all delays of `r` rounds and the first `i` of the next. -/
  executed : s.executed events = r * ns.length + i

theorem Due.fires_after (hs : s.PlaysDelays ns rest) (h : s.Due ns r i) (hn : ns[i]? = some n)
    {events : List Event} (hquiet : ∀ e ∈ events, ¬ e.Interrupts)
    (hcount : events.count .tick = elapsed ns r i) : s.Fires ns r i n events := by
  obtain ⟨hafter, hexecuted⟩ := after_eq_ticks hs.mode hquiet
  obtain ⟨hmoves, hstate, _⟩ := h.fires hs hn
  obtain ⟨_, _, _, hbefore⟩ := h
  rw [hcount] at hafter hexecuted
  constructor
  · rw [hafter, hmoves]
  · rw [hafter, hstate]
    rfl
  · rw [hexecuted, hbefore]

/-- A running sequencer whose program consists of delays has them at the start of its buffer. -/
theorem exists_playsDelays (hm : s.mode = .running) (hprogram : s.program = encode (ns.map .delay))
    (hbound : 2 ≤ s.rules.maxSteps) : ∃ rest, s.PlaysDelays ns rest := by
  obtain ⟨p, rest, hcode, hread⟩ := exists_layout s.store.code
  have hend : s.programEnd = size p := by
    unfold programEnd
    rw [hm, if_neg (by decide), Store.extent_layout hcode hread]
  have hp : encode p = encode (ns.map .delay) := by
    rw [← hprogram, program, hend, Store.leading_layout hcode]
  rw [encode_injective hp] at hcode
  exact ⟨rest, hm, hcode, hread, hbound⟩

/-- **Delays pace playback.** After a tick that executed a delay of `n`, with any events between the ticks that do
not end playback, exactly `max n 1 - 1` ticks wait, and the next one goes on behind the delay. So in a program of
delays, with room for two steps in a tick, delay `i` of round `r` is executed on the tick with the number
`1 + r * total ns + total (ns.take i)`, where delays and rounds are counted from 0. -/
theorem delays_pace_playback :
    (∀ {s : Sequencer} {n : UInt8} {events : List Event}, s.mode = .running →
        .execute (.delay n) ∈ s.moves → (∀ e ∈ events, ¬ e.Interrupts) →
          Player.moveAt s.store.code s.lastOffset = .execute (.delay n)
            ∧ (s.step .tick).state.position.cursor = s.lastOffset + (Instruction.delay n).size
            ∧ (s.step .tick).state.Paced n events)
      ∧ ∀ {s : Sequencer} {ns : List UInt8}, s.mode = .running → s.position = ⟨0, 0⟩ →
          s.program = encode (ns.map .delay) → 2 ≤ s.rules.maxSteps →
          ∀ {r i : Nat} {n : UInt8} {events : List Event}, ns[i]? = some n →
            (∀ e ∈ events, ¬ e.Interrupts) →
            events.count .tick + 1 = 1 + r * total ns + total (ns.take i) → s.Fires ns r i n events := by
  constructor
  · intro s n events hm hmem hquiet
    obtain ⟨hmove, hstate, hbound⟩ := state_of_delay_mem hm hmem
    have hpaced := @paced (s.step .tick).state (by rw [hstate]; exact hm) (by rw [hstate]; exact hbound)
      events hquiet
    rw [hstate] at hpaced ⊢
    exact ⟨hmove, rfl, hpaced⟩
  · intro s ns hm hstart hprogram hbound r i n events hn hquiet hcount
    obtain ⟨rest, hs⟩ := exists_playsDelays hm hprogram hbound
    have hlt : i < ns.length := (List.getElem?_eq_some_iff.mp hn).1
    have hne : ns ≠ [] := List.ne_nil_of_length_pos (by omega)
    refine (due hs hstart hne r (Nat.le_of_lt hlt)).fires_after hs hn hquiet ?_
    unfold elapsed
    omega

/-- Two delays fill the buffer, and a tick has just the steps for a wrap and a delay. Refused commands, a load
and starts stand between the ticks. -/
theorem delays_pace_full_buffer :
    ∃ first, new { leds := 2, capacity := 4, maxSteps := 2, code := encode [.delay 3, .delay 0] } = .ok first
      ∧ .execute (.delay 3) ∈ (first.after [.start]).moves
      ∧ ((first.after [.start]).step .tick).state.Paced 3 [.command 2 {}, .tick, .load [1], .tick, .command 9 {}]
      ∧ (first.after [.start]).program = encode ([3, 0].map .delay)
      ∧ (first.after [.start]).Fires [3, 0] 1 0 3 [.tick, .start, .tick, .tick, .command 0 {}, .tick] := by
  have hnew := @new_encode { leds := 2, capacity := 4, maxSteps := 2, code := encode [.delay 3, .delay 0] }
    [.delay 3, .delay 0] rfl (by decide)
  refine ⟨_, hnew, by decide, ?_, by decide, ?_⟩
  · exact (delays_pace_playback.1 (by decide) (by decide) (by decide)).2.2
  · exact delays_pace_playback.2 (by decide) (by decide) (by decide) (by decide) (by decide) (by decide) (by decide)

end Sequencer

end StripSequencer
