import StripSequencer.Proofs.Truncation

/-!
# `StripSequencer.Proofs.Moves` — what a tick does, move by move

At every place of the cursor there is one move that playback can make: to execute the instruction that
starts there, or to go back to the start of the code where none does. A tick that does not wait makes the
next moves, until it has executed a delay or has made as many moves as its step bound allows. Its report and
its calls account for these moves and for nothing else. This holds over any buffer, for any place of the
cursor and for any bound.

## Contents
- `Move`, `moveAt`, `route`: the moves from a cursor on; `arrival`: where they lead.
- `steps`, `steps_move`: a tick begins with a move and goes on as a tick that begins where the move leads.
- `Accounts`: the counts and the calls of a tick; `length_calls`: how many calls there are.
- `CutShort`, `Ends`, `Waits`: how a tick comes to its end, the first two with a lemma for one more move.
- `steps_accounts`, `tick_moves`, `tick_accounts`: the steps of a tick, a tick.
- `tick_accounting`.
-/

namespace StripSequencer

namespace Player

/-- A move of playback: an instruction is executed, or the cursor goes back to the start of the code. -/
inductive Move where
  | execute (i : Instruction)
  | wrap
deriving DecidableEq, Repr

namespace Move

/-- The instruction that a move executes. -/
def instruction? : Move → Option Instruction
  | .execute i => some i
  | .wrap => none

/-- The cursor after a move. -/
def target (cursor : Nat) : Move → Nat
  | .execute i => cursor + i.size
  | .wrap => 0

end Move

/-- The move that playback makes at a cursor. -/
def moveAt (code : List UInt8) (cursor : Nat) : Move :=
  match Instruction.read? (code.drop cursor) with
  | some (i, _) => .execute i
  | none => .wrap

/-- The next moves from a cursor on. -/
def route (code : List UInt8) : (count cursor : Nat) → List Move
  | 0, _ => []
  | count + 1, cursor => moveAt code cursor :: route code count ((moveAt code cursor).target cursor)

/-- The cursor after some moves. -/
def arrival (cursor : Nat) (moves : List Move) : Nat := moves.foldl Move.target cursor

/-- The instructions that some moves execute. -/
def instructions (moves : List Move) : List Instruction := moves.filterMap Move.instruction?

section Routes

variable {code : List UInt8} {moves : List Move} {i : Instruction}

@[simp] theorem length_route (code : List UInt8) (count cursor : Nat) :
    (route code count cursor).length = count := by
  induction count generalizing cursor with
  | zero => rfl
  | succ count ih => simp [route, ih]

/-- One move more is made where the others lead. -/
theorem route_succ (code : List UInt8) (count cursor : Nat) :
    route code (count + 1) cursor
      = route code count cursor ++ [moveAt code (arrival cursor (route code count cursor))] := by
  induction count generalizing cursor with
  | zero => rfl
  | succ count ih =>
    rw [route, ih]
    rfl

/-- The last of some moves is made where the others lead. -/
theorem moveAt_of_route_eq {count cursor : Nat} {before : List Move} {m : Move}
    (h : route code count cursor = before ++ [m]) : moveAt code (arrival cursor before) = m := by
  have hcount : count = before.length + 1 := by
    rw [← length_route code count cursor, h, List.length_append]
    rfl
  subst hcount
  rw [route_succ] at h
  obtain ⟨hbefore, hlast⟩ := List.append_inj' h rfl
  rw [← hbefore]
  exact List.head_eq_of_cons_eq hlast

@[simp] theorem instructions_nil : instructions [] = [] := rfl

@[simp] theorem instructions_execute : instructions (.execute i :: moves) = i :: instructions moves := rfl

@[simp] theorem instructions_wrap : instructions (.wrap :: moves) = instructions moves := rfl

@[simp] theorem instructions_append (moves more : List Move) :
    instructions (moves ++ more) = instructions moves ++ instructions more :=
  List.filterMap_append

/-- A move executes an instruction or is a wrap. -/
theorem length_instructions (moves : List Move) :
    (instructions moves).length + moves.count .wrap = moves.length := by
  induction moves with
  | nil => rfl
  | cons m moves ih =>
    cases m with
    | execute i =>
      simp
      omega
    | wrap =>
      simp
      omega

theorem moveAt_of_some {cursor : Nat} {rest : List UInt8}
    (h : Instruction.read? (code.drop cursor) = some (i, rest)) : moveAt code cursor = .execute i := by
  simp [moveAt, h]

theorem moveAt_of_none {cursor : Nat} (h : Instruction.read? (code.drop cursor) = none) :
    moveAt code cursor = .wrap := by
  simp [moveAt, h]

theorem moveAt_eq_execute_iff {cursor : Nat} :
    moveAt code cursor = .execute i ↔ ∃ rest, Instruction.read? (code.drop cursor) = some (i, rest) := by
  unfold moveAt
  cases Instruction.read? (code.drop cursor) with
  | none => simp
  | some found =>
    obtain ⟨j, rest⟩ := found
    simp

end Routes

/-! ## A tick begins with a move -/

variable {rules : Rules} {code : List UInt8} {cursor : Nat} {t : Tick} {moves : List Move} {m : Move}

/-- A tick that makes one move and no more. -/
def Move.alone (rules : Rules) (cursor : Nat) (m : Move) : Tick where
  position := ⟨m.target cursor, 0⟩
  report :=
    match m with
    | .execute i => Report.count rules i {}
    | .wrap => { wrapped := 1 }
  calls := (m.instruction?.toList.flatMap (effect rules)).toArray

/-- The steps of a tick from a cursor on. -/
def steps (rules : Rules) (code : List UInt8) (bound cursor : Nat) : Tick :=
  run rules code bound cursor (code.drop cursor) {} #[]

theorem tick_of_delay_le {p : Position} (h : ¬ 1 < p.delay) :
    tick rules code p = steps rules code rules.maxSteps p.cursor :=
  if_neg h

theorem tick_of_lt_delay {p : Position} (h : 1 < p.delay) :
    tick rules code p = ⟨{ p with delay := p.delay - 1 }, { waiting := true }, #[]⟩ :=
  if_pos h

/-- **A tick begins with a move.** Unless it is a delay, the rest of the tick is a tick with one step less that
begins where the move leads. -/
theorem steps_move (hm : moveAt code cursor = m) (hgoes : ∀ ticks, m ≠ .execute (.delay ticks)) (bound : Nat) :
    steps rules code (bound + 1) cursor
      = (m.alone rules cursor).followed (steps rules code bound (m.target cursor)) := by
  unfold steps
  cases hread : Instruction.read? (code.drop cursor) with
  | none =>
    have hwrap : m = .wrap := hm.symm.trans (moveAt_of_none hread)
    have hone : Report.Ongoing { wrapped := 1 } := ⟨rfl, rfl⟩
    subst hwrap
    rw [run_wrap hread]
    exact run_accumulates bound 0 code hone #[] ⟨0, 0⟩
  | some found =>
    obtain ⟨i, after⟩ := found
    have hexecute : m = .execute i := hm.symm.trans (moveAt_of_some hread)
    subst hexecute
    have hi : ∀ ticks, i ≠ .delay ticks := by
      rintro ticks rfl
      exact hgoes ticks rfl
    rw [run_other hread hi, Instruction.eq_drop_of_read? hread,
      run_accumulates bound _ _ (Report.Ongoing.empty.count i) _ ⟨cursor + i.size, 0⟩]
    simp [Move.alone, Move.target, Move.instruction?]

/-- A delay ends the tick. -/
theorem steps_delay {ticks : UInt8} (hm : moveAt code cursor = .execute (.delay ticks)) (bound : Nat) :
    steps rules code (bound + 1) cursor
      = ⟨⟨cursor + (Instruction.delay ticks).size, ticks⟩, { executed := 1 }, #[]⟩ := by
  obtain ⟨after, hread⟩ := moveAt_eq_execute_iff.mp hm
  exact run_delay hread bound

/-! ## The account of a tick -/

/-- The instruction is for a pixel, and the strip is not told of it. -/
def Dropped (rules : Rules) (i : Instruction) : Prop := i.opcode = .pixel ∧ effect rules i = []

instance (rules : Rules) (i : Instruction) : Decidable (Dropped rules i) :=
  inferInstanceAs (Decidable (i.opcode = .pixel ∧ effect rules i = []))

/-- How many instructions of a kind some moves execute. -/
def countOf (op : Opcode) (moves : List Move) : Nat := (instructions moves).countP (·.opcode = op)

/-- The report and the calls of a tick are those of the moves. -/
structure Accounts (rules : Rules) (cursor : Nat) (t : Tick) (moves : List Move) : Prop where
  arrives : t.position.cursor = arrival cursor moves
  executed : t.report.executed = (instructions moves).length
  wrapped : t.report.wrapped = moves.count .wrap
  skipped : t.report.skipped = (instructions moves).countP (Dropped rules ·)
  calls : t.calls.toList = (instructions moves).flatMap (effect rules)

/-- The tick made as many moves as it may, none of which was a delay. -/
structure CutShort (bound : Nat) (t : Tick) (moves : List Move) : Prop where
  truncated : t.report.truncated = true
  waiting : t.report.waiting = false
  exhausted : t.report.executed + t.report.wrapped = bound
  no_delay : ∀ i ∈ instructions moves, i.opcode ≠ .delay
  delay : t.position.delay = 0

/-- The tick ended with the only delay that it executed. -/
structure Ends (bound : Nat) (t : Tick) (moves : List Move) : Prop where
  truncated : t.report.truncated = false
  waiting : t.report.waiting = false
  some_move : 1 ≤ t.report.executed + t.report.wrapped
  within : t.report.executed + t.report.wrapped ≤ bound
  last : ∃ before ticks, moves = before ++ [.execute (.delay ticks)]
    ∧ (∀ i ∈ instructions before, i.opcode ≠ .delay) ∧ t.position.delay = ticks

/-- The tick only counted down a delay, which is not over. -/
structure Waits (p : Position) (t : Tick) : Prop where
  waiting : t.report.waiting = true
  truncated : t.report.truncated = false
  executed : t.report.executed = 0
  wrapped : t.report.wrapped = 0
  skipped : t.report.skipped = 0
  calls : t.calls = #[]
  cursor : t.position.cursor = p.cursor
  delay : t.position.delay.toNat + 1 = p.delay.toNat
  pending : 0 < t.position.delay

/-- A pixel instruction counts as skipped exactly if the strip is not told of it. -/
theorem isSkipped_eq (rules : Rules) (i : Instruction) : isSkipped rules i = decide (Dropped rules i) := by
  cases i with
  | pixel index red green blue =>
    cases hdrops : drops rules index with
    | true => simp [isSkipped, Dropped, Instruction.opcode, effect, hdrops]
    | false => simp [isSkipped, Dropped, Instruction.opcode, effect, hdrops]
  | clear | delay | all => simp [isSkipped, Dropped, Instruction.opcode]

/-- **The calls of an instruction.** One that is not dropped makes one call, except for a delay, which makes
none, and an instruction for all pixels, which makes one for each. -/
theorem length_effect (rules : Rules) (i : Instruction) :
    (effect rules i).length + (if Dropped rules i then 1 else 0)
      = (if i.opcode = .clear then 1 else 0) + (if i.opcode = .pixel then 1 else 0)
        + rules.leds.toNat * (if i.opcode = .all then 1 else 0) := by
  cases i with
  | pixel index red green blue =>
    cases hdrops : drops rules index with
    | true => simp [Dropped, Instruction.opcode, effect, hdrops]
    | false => simp [Dropped, Instruction.opcode, effect, hdrops]
  | clear | delay | all => simp [Dropped, Instruction.opcode, effect]

/-- **The number of calls.** By induction on the moves. -/
theorem length_calls (rules : Rules) (moves : List Move) :
    ((instructions moves).flatMap (effect rules)).length + (instructions moves).countP (Dropped rules ·)
      = countOf .clear moves + countOf .pixel moves + rules.leds.toNat * countOf .all moves := by
  unfold countOf
  induction instructions moves with
  | nil => simp
  | cons i rest ih =>
    have hone := length_effect rules i
    simp only [List.flatMap_cons, List.length_append, List.countP_cons, decide_eq_true_eq, Nat.mul_add]
    omega

/-- What is dropped are pixel instructions. -/
theorem countP_dropped_le (rules : Rules) (moves : List Move) :
    (instructions moves).countP (Dropped rules ·) ≤ countOf .pixel moves := by
  refine List.countP_mono_left ?_
  intro i _ hdropped
  exact decide_eq_true (of_decide_eq_true hdropped).1

namespace Accounts

/-- The moves are as many as the tick reports. -/
theorem length_eq (h : Accounts rules cursor t moves) :
    moves.length = t.report.executed + t.report.wrapped := by
  rw [h.executed, h.wrapped, length_instructions]

/-- Without a move there is nothing to account for. -/
theorem stay (h : t.position.cursor = cursor) (hexecuted : t.report.executed = 0)
    (hwrapped : t.report.wrapped = 0) (hskipped : t.report.skipped = 0) (hcalls : t.calls = #[]) :
    Accounts rules cursor t [] where
  arrives := h
  executed := hexecuted
  wrapped := hwrapped
  skipped := hskipped
  calls := by rw [hcalls]; rfl

/-- A delay that ends the tick. -/
theorem delay (ticks : UInt8) :
    Accounts rules cursor ⟨⟨cursor + (Instruction.delay ticks).size, ticks⟩, { executed := 1 }, #[]⟩
      [.execute (.delay ticks)] where
  arrives := rfl
  executed := rfl
  wrapped := rfl
  skipped := by simp [Dropped, Instruction.opcode]
  calls := by simp [effect]

/-- One more move before the others. -/
theorem cons (h : Accounts rules (m.target cursor) t moves) :
    Accounts rules cursor ((m.alone rules cursor).followed t) (m :: moves) := by
  cases m with
  | execute i =>
    constructor
    · exact h.arrives
    · show 1 + t.report.executed = (i :: instructions moves).length
      rw [h.executed, List.length_cons, Nat.add_comm]
    · show 0 + t.report.wrapped = (Move.execute i :: moves).count .wrap
      rw [h.wrapped, Nat.zero_add, List.count_cons_of_ne (by simp)]
    · show (if isSkipped rules i then 0 + 1 else 0) + t.report.skipped = (i :: instructions moves).countP _
      rw [h.skipped, List.countP_cons, isSkipped_eq, Nat.add_comm]
    · show (_ ++ t.calls).toList = (i :: instructions moves).flatMap (effect rules)
      rw [Array.toList_append, h.calls]
      simp [Move.alone, Move.instruction?]
  | wrap =>
    constructor
    · exact h.arrives
    · show 0 + t.report.executed = (instructions moves).length
      rw [h.executed, Nat.zero_add]
    · show 1 + t.report.wrapped = (Move.wrap :: moves).count .wrap
      rw [h.wrapped, List.count_cons_self, Nat.add_comm]
    · show 0 + t.report.skipped = (instructions moves).countP _
      rw [h.skipped, Nat.zero_add]
    · show (_ ++ t.calls).toList = (instructions moves).flatMap (effect rules)
      rw [Array.toList_append, h.calls]
      simp [Move.alone, Move.instruction?]

end Accounts

/-! ## How a tick comes to its end -/

/-- One move is counted once. -/
theorem Move.followed_count (rules : Rules) (cursor : Nat) (m : Move) (t : Tick) :
    ((m.alone rules cursor).followed t).report.executed + ((m.alone rules cursor).followed t).report.wrapped
      = t.report.executed + t.report.wrapped + 1 := by
  cases m with
  | execute i =>
    show 1 + t.report.executed + (0 + t.report.wrapped) = _
    omega
  | wrap =>
    show 0 + t.report.executed + (1 + t.report.wrapped) = _
    omega

/-- One more move that is no delay, before others that are none. -/
theorem no_delay_cons (hgoes : ∀ ticks, m ≠ .execute (.delay ticks))
    (h : ∀ i ∈ instructions moves, i.opcode ≠ .delay) : ∀ i ∈ instructions (m :: moves), i.opcode ≠ .delay := by
  cases m with
  | wrap => exact h
  | execute j =>
    intro i hi
    rcases List.mem_cons.mp hi with rfl | hlater
    · cases i with
      | delay ticks => exact absurd rfl (hgoes ticks)
      | clear | pixel | all => simp [Instruction.opcode]
    · exact h i hlater

variable {bound : Nat}

/-- A tick that is cut short after one more move. -/
theorem CutShort.cons (hgoes : ∀ ticks, m ≠ .execute (.delay ticks)) (h : CutShort bound t moves) :
    CutShort (bound + 1) ((m.alone rules cursor).followed t) (m :: moves) where
  truncated := h.truncated
  waiting := h.waiting
  exhausted := by rw [Move.followed_count, h.exhausted]
  no_delay := no_delay_cons hgoes h.no_delay
  delay := h.delay

/-- A tick that ends with a delay after one more move. -/
theorem Ends.cons (hgoes : ∀ ticks, m ≠ .execute (.delay ticks)) (h : Ends bound t moves) :
    Ends (bound + 1) ((m.alone rules cursor).followed t) (m :: moves) where
  truncated := h.truncated
  waiting := h.waiting
  some_move := by
    rw [Move.followed_count]
    omega
  within := by
    rw [Move.followed_count]
    exact Nat.succ_le_succ h.within
  last := by
    obtain ⟨before, ticks, hlast, hbefore, hdelay⟩ := h.last
    exact ⟨m :: before, ticks, by rw [hlast, List.cons_append], no_delay_cons hgoes hbefore, hdelay⟩

/-- **The steps of a tick.** By induction on the bound: without a step left the tick is cut short, a delay
ends it, and any other move is followed by a tick with one step less. -/
theorem steps_accounts (rules : Rules) (code : List UInt8) (bound cursor : Nat) :
    ∃ count, Accounts rules cursor (steps rules code bound cursor) (route code count cursor)
      ∧ (CutShort bound (steps rules code bound cursor) (route code count cursor)
        ∨ Ends bound (steps rules code bound cursor) (route code count cursor)) := by
  induction bound generalizing cursor with
  | zero =>
    refine ⟨0, Accounts.stay rfl rfl rfl rfl rfl, .inl ?_⟩
    exact ⟨rfl, rfl, rfl, by simp [route], rfl⟩
  | succ bound ih =>
    by_cases hdelay : ∃ ticks, moveAt code cursor = .execute (.delay ticks)
    · obtain ⟨ticks, hm⟩ := hdelay
      have hroute : route code 1 cursor = [.execute (.delay ticks)] := by simp [route, hm]
      refine ⟨1, ?_⟩
      rw [steps_delay hm, hroute]
      refine ⟨Accounts.delay ticks, .inr ⟨rfl, rfl, Nat.le_refl _, ?_, [], ticks, rfl, by simp, rfl⟩⟩
      show 1 ≤ bound + 1
      omega
    · have hgoes : ∀ ticks, moveAt code cursor ≠ .execute (.delay ticks) := fun ticks hm => hdelay ⟨ticks, hm⟩
      obtain ⟨count, haccounts, hend⟩ := ih ((moveAt code cursor).target cursor)
      refine ⟨count + 1, ?_⟩
      rw [steps_move rfl hgoes, route]
      exact ⟨haccounts.cons, hend.imp (CutShort.cons hgoes) (Ends.cons hgoes)⟩

/-- The moves of a tick: as many as it reports, from the cursor on. -/
def movesOf (rules : Rules) (code : List UInt8) (p : Position) : List Move :=
  route code ((tick rules code p).report.executed + (tick rules code p).report.wrapped) p.cursor

/-- The test for a delay that is not over, on numbers. -/
theorem pending_iff {delay : UInt8} : 1 < delay ↔ 1 < delay.toNat := UInt8.lt_iff_toNat_lt

/-- A tick over a delay that is not over waits. -/
theorem tick_waits (rules : Rules) (code : List UInt8) {p : Position} (h : 1 < p.delay) :
    Waits p (tick rules code p) := by
  have hlt : 1 < p.delay.toNat := pending_iff.mp h
  have hle : (1 : UInt8) ≤ p.delay := UInt8.le_of_lt h
  have hsub : (p.delay - 1).toNat = p.delay.toNat - 1 := UInt8.toNat_sub_of_le _ _ hle
  rw [tick_of_lt_delay h]
  refine ⟨rfl, rfl, rfl, rfl, rfl, rfl, rfl, ?_, ?_⟩
  · show (p.delay - 1).toNat + 1 = p.delay.toNat
    omega
  · show 0 < p.delay - 1
    rw [UInt8.lt_iff_toNat_lt, hsub]
    show 0 < p.delay.toNat - 1
    omega

/-- **A tick that does not wait.** It accounts for its moves, and it is cut short or ends with a delay. -/
theorem tick_moves (rules : Rules) (code : List UInt8) {p : Position} (h : ¬ 1 < p.delay) :
    Accounts rules p.cursor (tick rules code p) (movesOf rules code p)
      ∧ (CutShort rules.maxSteps (tick rules code p) (movesOf rules code p)
        ∨ Ends rules.maxSteps (tick rules code p) (movesOf rules code p)) := by
  obtain ⟨count, haccounts, hend⟩ := steps_accounts rules code rules.maxSteps p.cursor
  have hcount : count = (tick rules code p).report.executed + (tick rules code p).report.wrapped := by
    rw [tick_of_delay_le h, ← haccounts.length_eq, length_route]
  have hmoves : movesOf rules code p = route code count p.cursor := by
    unfold movesOf
    rw [hcount]
  rw [hmoves, tick_of_delay_le h]
  exact ⟨haccounts, hend⟩

theorem Waits.movesOf_eq {p : Position} (h : Waits p (tick rules code p)) : movesOf rules code p = [] := by
  unfold movesOf
  rw [h.executed, h.wrapped]
  rfl

/-- **A tick accounts for its moves.** -/
theorem tick_accounts (rules : Rules) (code : List UInt8) (p : Position) :
    Accounts rules p.cursor (tick rules code p) (movesOf rules code p) := by
  by_cases h : 1 < p.delay
  · have hwaits : Waits p (tick rules code p) := tick_waits rules code h
    rw [hwaits.movesOf_eq]
    exact Accounts.stay hwaits.cursor hwaits.executed hwaits.wrapped hwaits.skipped hwaits.calls
  · exact (tick_moves rules code h).1

/-- **Every tick accounts for what it did.** Exactly one of three things happens: the tick waits, it is cut
short by the step bound, or it ends with a delay. In each case the report and the calls are those of the
moves from the cursor on. -/
theorem tick_accounting (rules : Rules) (code : List UInt8) (p : Position) :
    let t := tick rules code p
    let moves := route code (t.report.executed + t.report.wrapped) p.cursor
    (Waits p t ∨ CutShort rules.maxSteps t moves ∨ Ends rules.maxSteps t moves)
      ∧ ¬ (Waits p t ∧ CutShort rules.maxSteps t moves) ∧ ¬ (Waits p t ∧ Ends rules.maxSteps t moves)
      ∧ ¬ (CutShort rules.maxSteps t moves ∧ Ends rules.maxSteps t moves)
      ∧ Accounts rules p.cursor t moves
      ∧ t.report.skipped ≤ countOf .pixel moves
      ∧ t.calls.size = countOf .clear moves + (countOf .pixel moves - t.report.skipped)
          + rules.leds.toNat * countOf .all moves := by
  intro t moves
  have haccounts : Accounts rules p.cursor t moves := tick_accounts rules code p
  have hskipped : t.report.skipped ≤ countOf .pixel moves := by
    rw [haccounts.skipped]
    exact countP_dropped_le rules moves
  refine ⟨?_, ?_, ?_, ?_, haccounts, hskipped, ?_⟩
  · by_cases h : 1 < p.delay
    · exact .inl (tick_waits rules code h)
    · exact .inr (tick_moves rules code h).2
  · rintro ⟨hwaits, hcut⟩
    exact absurd (hwaits.waiting.symm.trans hcut.waiting) (by decide)
  · rintro ⟨hwaits, hends⟩
    exact absurd (hwaits.waiting.symm.trans hends.waiting) (by decide)
  · rintro ⟨hcut, hends⟩
    exact absurd (hcut.truncated.symm.trans hends.truncated) (by decide)
  · have hcalls := length_calls rules moves
    rw [← haccounts.calls, ← haccounts.skipped, Array.length_toList] at hcalls
    omega

end Player

end StripSequencer
