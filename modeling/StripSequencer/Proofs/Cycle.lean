import StripSequencer.Player
import StripSequencer.Proofs.Layout

/-!
# `StripSequencer.Proofs.Cycle` — playback as cyclic execution of a list

`Cycle.tick` plays a list of instructions by index, with no bytes in sight. `tick_layout` says that the
player over a buffer with that list in it does the same, whatever follows the list. What a tick executes
is then a fact about the list alone: `tick_segment` says that it is the next stretch of the endlessly
repeated list.

## Contents
- `Cycle.run`, `Cycle.tick`: playback by index; `run_layout`, `tick_layout`: the player does the same.
- `Cycle.Segment`: a stretch of the repeated list, from one index to another.
- `run_segment`, `tick_segment`: what is executed is such a stretch.
-/

namespace StripSequencer

open Program

namespace Cycle

/-- The result of a tick over a list of instructions. -/
structure Tick where
  /-- The index of the instruction that is executed next. -/
  next : Nat
  delay : UInt8
  report : Player.Report
  calls : Array Strip.Call

/-- Executes at most the given number of steps of `p`, beginning with instruction `next`. -/
def run (rules : Player.Rules) (p : List Instruction) :
    Nat → (next : Nat) → Player.Report → Array Strip.Call → Tick
  | 0, next, report, calls => ⟨next, 0, { report with truncated := true }, calls⟩
  | steps + 1, next, report, calls =>
    match p[next]? with
    | none => run rules p steps 0 { report with wrapped := report.wrapped + 1 } calls
    | some (.delay ticks) => ⟨next + 1, ticks, report.count rules (.delay ticks), calls⟩
    | some i => run rules p steps (next + 1) (report.count rules i) (calls ++ Player.effect rules i)

/-- Advances playback of a list by one tick. -/
def tick (rules : Player.Rules) (p : List Instruction) (next : Nat) (delay : UInt8) : Tick :=
  if 1 < delay then ⟨next, delay - 1, { waiting := true }, #[]⟩
  else run rules p rules.maxSteps next {} #[]

/-- The tick as the player reports it, with the offset of the next instruction in place of its index. -/
def Tick.placed (p : List Instruction) (t : Tick) : Player.Tick :=
  ⟨⟨offset p t.next, t.delay⟩, t.report, t.calls⟩

/-! ## The player over a buffer -/

variable {rules : Player.Rules} {p : List Instruction} {rest : List UInt8}

/-- What the reader finds at the offset of instruction `n`. -/
theorem read?_drop_offset (hrest : Instruction.read? rest = none) (n : Nat) :
    Instruction.read? ((encode p ++ rest).drop (offset p n))
      = p[n]?.map fun i => (i, encode (p.drop (n + 1)) ++ rest) := by
  rw [drop_offset]
  by_cases hn : n < p.length
  · rw [List.drop_eq_getElem_cons hn, List.getElem?_eq_getElem hn, encode_cons, List.append_assoc,
      Instruction.read?_encode_append]
    rfl
  · have hle : p.length ≤ n := by omega
    rw [List.drop_eq_nil_of_le hle, List.getElem?_eq_none hle, encode_nil, List.nil_append, hrest]
    rfl

/-- **The player executes the list.** Whatever follows the list in the buffer is not looked at further
than to see that no instruction starts there. -/
theorem run_layout (hrest : Instruction.read? rest = none) (steps next : Nat) (report : Player.Report)
    (calls : Array Strip.Call) :
    Player.run rules (encode p ++ rest) steps (offset p next)
        ((encode p ++ rest).drop (offset p next)) report calls
      = (run rules p steps next report calls).placed p := by
  induction steps generalizing next report calls with
  | zero => rfl
  | succ steps ih =>
    have hread := read?_drop_offset (p := p) hrest next
    rw [Player.run, run, hread]
    cases hget : p[next]? with
    | none =>
      have hwrap := ih 0 { report with wrapped := report.wrapped + 1 } calls
      rw [offset_zero, List.drop_zero] at hwrap
      exact hwrap
    | some i =>
      -- every instruction but a delay is followed by the next step
      have hon : Player.run rules (encode p ++ rest) steps (offset p next + i.size)
            (encode (p.drop (next + 1)) ++ rest) (report.count rules i)
            (calls ++ Player.effect rules i)
          = (run rules p steps (next + 1) (report.count rules i)
              (calls ++ Player.effect rules i)).placed p := by
        rw [← ih, drop_offset, offset_succ hget]
      cases i with
      | delay ticks =>
        show Player.Tick.mk ⟨offset p next + (Instruction.delay ticks).size, ticks⟩ _ _ = _
        rw [← offset_succ hget]
        rfl
      | clear => exact hon
      | pixel index red green blue => exact hon
      | all red green blue => exact hon

/-- **A tick of the player is a tick over the list.** -/
theorem tick_layout (hrest : Instruction.read? rest = none) (next : Nat) (delay : UInt8) :
    Player.tick rules (encode p ++ rest) ⟨offset p next, delay⟩
      = (tick rules p next delay).placed p := by
  unfold Player.tick tick
  by_cases hdelay : 1 < delay
  · rw [if_pos hdelay, if_pos hdelay]
    rfl
  · rw [if_neg hdelay, if_neg hdelay]
    exact run_layout hrest rules.maxSteps next {} #[]

/-! ## Stretches of the repeated list -/

/-- Executing `done` from index `start` on goes through `p` over and over in order, passes its end `wraps`
times, and leaves off at index `stop`. -/
structure Segment (p : List Instruction) (start : Nat) (done : List Instruction) (wraps stop : Nat) :
    Prop where
  follows : ∀ m < done.length, done[m]? = p[(start + m) % p.length]?
  stop_le : stop ≤ p.length
  account : start + done.length = stop + p.length * wraps

namespace Segment

/-- Nothing is executed. -/
theorem stay {start : Nat} (h : start ≤ p.length) : Segment p start [] 0 start where
  follows m hm := absurd hm (Nat.not_lt_zero m)
  stop_le := h
  account := by simp

/-- Playback goes back to the first instruction. -/
theorem wrap (p : List Instruction) : Segment p p.length [] 1 0 where
  follows m hm := absurd hm (Nat.not_lt_zero m)
  stop_le := Nat.zero_le _
  account := by simp

/-- One instruction is executed. -/
theorem single {start : Nat} {i : Instruction} (h : p[start]? = some i) :
    Segment p start [i] 0 (start + 1) where
  follows m hm := by
    obtain ⟨hlt, _⟩ := List.getElem?_eq_some_iff.mp h
    have hzero : m = 0 := by simpa using hm
    subst hzero
    rw [Nat.add_zero, Nat.mod_eq_of_lt hlt, h]
    rfl
  stop_le := by
    obtain ⟨hlt, _⟩ := List.getElem?_eq_some_iff.mp h
    omega
  account := by simp

/-- A stretch that begins where another leaves off continues it. -/
theorem trans {start mid stop wraps wraps' : Nat} {done done' : List Instruction}
    (h : Segment p start done wraps mid) (h' : Segment p mid done' wraps' stop) :
    Segment p start (done ++ done') (wraps + wraps') stop where
  follows m hm := by
    by_cases hlt : m < done.length
    · rw [List.getElem?_append_left hlt]
      exact h.follows m hlt
    · -- past `done`, the indices differ by whole rounds
      have hge : done.length ≤ m := by omega
      have hm' : m - done.length < done'.length := by
        rw [List.length_append] at hm
        omega
      have hindex : start + m = mid + (m - done.length) + p.length * wraps := by
        have hacc := h.account
        omega
      rw [List.getElem?_append_right hge, h'.follows _ hm', hindex, Nat.add_mul_mod_self_left]
  stop_le := h'.stop_le
  account := by
    have hacc := h.account
    have hacc' := h'.account
    rw [List.length_append, Nat.mul_add]
    omega

end Segment

/-! ## What a tick executes -/

/-- From a report and calls to those of `t`, playback executed `done` from index `start` on. -/
structure Executes (rules : Player.Rules) (p : List Instruction) (start : Nat) (report : Player.Report)
    (calls : Array Strip.Call) (t : Tick) (done : List Instruction) : Prop where
  segment : ∃ wraps, Segment p start done wraps t.next ∧ t.report.wrapped = report.wrapped + wraps
  executed : t.report.executed = report.executed + done.length
  calls : t.calls.toList = calls.toList ++ done.flatMap (Player.effect rules)

/-- **Executing steps.** By induction on the steps: each one is a wrap, a delay, which ends the tick, or
another instruction, which the rest of the steps continue. -/
theorem run_segment (steps : Nat) {next : Nat} (hnext : next ≤ p.length) (report : Player.Report)
    (calls : Array Strip.Call) :
    ∃ done, Executes rules p next report calls (run rules p steps next report calls) done := by
  induction steps generalizing next report calls with
  | zero => exact ⟨[], ⟨0, Segment.stay hnext, rfl⟩, rfl, by simp [run]⟩
  | succ steps ih =>
    rw [run]
    cases hget : p[next]? with
    | none =>
      -- nothing to execute: the end is reached, and the remaining steps begin a new round
      have hend : next = p.length := by
        have hle := List.getElem?_eq_none_iff.mp hget
        omega
      obtain ⟨done, ⟨wraps, hseg, hwrapped⟩, hexec, hcalls⟩ :=
        ih (Nat.zero_le _) { report with wrapped := report.wrapped + 1 } calls
      refine ⟨done, ⟨1 + wraps, ?_, ?_⟩, hexec, hcalls⟩
      · rw [hend]
        exact (Segment.wrap p).trans hseg
      · show _ = report.wrapped + (1 + wraps)
        rw [hwrapped]
        exact Nat.add_assoc _ _ _
    | some i =>
      have hone := Segment.single hget
      have hon : ∃ done, Executes rules p next report calls
          (run rules p steps (next + 1) (report.count rules i) (calls ++ Player.effect rules i))
          done := by
        obtain ⟨done, ⟨wraps, hseg, hwrapped⟩, hexec, hcalls⟩ :=
          ih hone.stop_le (report.count rules i) (calls ++ Player.effect rules i)
        refine ⟨i :: done, ⟨0 + wraps, hone.trans hseg, ?_⟩, ?_, ?_⟩
        · rw [hwrapped, Nat.zero_add]
          rfl
        · rw [hexec, List.length_cons]
          show report.executed + 1 + done.length = _
          omega
        · rw [hcalls]
          simp
      cases i with
      | delay ticks =>
        exact ⟨[.delay ticks], ⟨0, hone, rfl⟩, rfl, by simp [Player.effect]⟩
      | clear => exact hon
      | pixel index red green blue => exact hon
      | all red green blue => exact hon

/-- **What a tick executes is the next stretch of the repeated list.** -/
theorem tick_segment {next : Nat} (hnext : next ≤ p.length) (delay : UInt8) :
    ∃ done, Executes rules p next {} #[] (tick rules p next delay) done := by
  unfold tick
  by_cases hdelay : 1 < delay
  · rw [if_pos hdelay]
    exact ⟨[], ⟨0, Segment.stay hnext, rfl⟩, rfl, rfl⟩
  · rw [if_neg hdelay]
    exact run_segment rules.maxSteps hnext {} #[]

/-- A tick leaves off inside the list or at its end. -/
theorem tick_next_le (rules : Player.Rules) {next : Nat} (hnext : next ≤ p.length) (delay : UInt8) :
    (tick rules p next delay).next ≤ p.length := by
  have hexec : ∃ done, Executes rules p next {} #[] (tick rules p next delay) done :=
    tick_segment hnext delay
  obtain ⟨done, ⟨wraps, hseg, _⟩, _⟩ := hexec
  exact hseg.stop_le

end Cycle

end StripSequencer
