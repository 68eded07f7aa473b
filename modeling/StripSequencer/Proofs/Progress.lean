import StripSequencer.Proofs.Pacing
import StripSequencer.Proofs.ProgramFrame

/-!
# `StripSequencer.Proofs.Progress` — playback neither spins nor stalls

Playback is started only when the program has an instruction, and no event takes the last instruction away while
it is on. So there is an instruction at the start of the buffer of every running sequencer, a wrap is followed by
an instruction, and sooner or later one is executed. The longest time without one is that of the longest delay
under a step bound of 1, when playback has to go back to the start first.

## Contents
- `Sequencer.Playable`, `Reachable.playable`, `Reachable.moveAt_zero`: a running sequencer has an instruction to
  begin with.
- `Player.no_two_wraps`, `Player.count_wrap_le`: a wrap is followed by an instruction, so wraps are few.
- `Player.executed_pos`, `Player.executed_pos_or_back`: a tick that does not wait executes an instruction or goes
  back to the start; `executed_two_ticks`, `executed_ticks`: two such ticks, and as many as a delay can take.
- `running_never_stalls`.
-/

namespace StripSequencer

open Program

namespace Sequencer

/-! ## Running sequencers have something to play -/

/-- The state is not running over an empty program. -/
def Playable (s : Sequencer) : Prop := s.mode = .running → ¬ s.store.isEmpty = true

theorem Transition.playable {s : Sequencer} {e : Event} {o : Outcome} (h : Transition s e o) (hs : s.Playable) :
    o.state.Playable := by
  intro hrunning
  cases h with
  -- nothing changes, or only the place of playback does
  | unknownCommand | runOn | nothingToRun | unknownOpcode | rejected | noRoom | tick | idle | busy | tooLong
  | corrupt | startEmpty => exact hs hrunning
  -- the mode is another one
  | clear | pause | enterEdit | exitEdit => cases hrunning
  | append hm | load hm => exact absurd (hm.symm.trans hrunning) (by decide)
  -- playback begins
  | run _ _ hfull => exact hfull
  | start hfull =>
    rcases hfull with hon | hfull
    · exact hs hon
    · exact hfull

/-- **All runs.** No reachable state runs over an empty program. -/
theorem Reachable.playable {s : Sequencer} (h : Reachable s) : s.Playable := by
  refine h.induction (P := Playable) ?_ ?_
  · intro setup first hnew
    exact (new_transition hnew).playable nofun
  · intro t e o ht hrule
    exact hrule.playable ht

/-- **A running sequencer has an instruction to begin with**, also if playback was started out of command entry. -/
theorem Reachable.moveAt_zero {s : Sequencer} (h : Reachable s) (hm : s.mode = .running) :
    ∃ i, Player.moveAt s.store.code 0 = .execute i := by
  obtain ⟨p, hp⟩ := h.exists_program
  obtain ⟨rest, hcode, _⟩ := hp.layout
  cases p with
  | nil => exact absurd (hp.isEmpty_iff.mpr rfl) (h.playable hm)
  | cons i p =>
    refine ⟨i, Player.moveAt_eq_execute_iff.mpr ⟨encode p ++ rest, ?_⟩⟩
    rw [hcode, List.drop_zero, encode_cons, List.append_assoc, Instruction.read?_encode_append]

/-- Every reachable state has room for a step in a tick. -/
theorem Reachable.maxSteps_pos {s : Sequencer} (h : Reachable s) : 0 < s.rules.maxSteps := by
  obtain ⟨setup, first, events, hnew, rfl⟩ := h
  rw [(new_setup_kept hnew events).1]
  unfold Setup.rules
  by_cases hpositive : 0 < setup.maxSteps
  · simp [hpositive]
  · simp [hpositive, Player.defaultMaxSteps]

end Sequencer

namespace Player

/-! ## Wraps are few -/

variable {rules : Rules} {code : List UInt8} {first : Instruction}

/-- **A wrap is followed by an instruction**, if one starts at the front of the code. -/
theorem no_two_wraps (h : moveAt code 0 = .execute first) (count cursor : Nat) :
    ¬ [.wrap, .wrap] <:+: route code count cursor := by
  induction count generalizing cursor with
  | zero => simp [route]
  | succ count ih =>
    rw [route, List.infix_cons_iff]
    rintro (hhere | hlater)
    · -- a wrap leads to the front, where an instruction is executed
      obtain ⟨hwrap, hnext⟩ := List.cons_prefix_cons.mp hhere
      rw [← hwrap] at hnext
      cases count with
      | zero => cases List.prefix_nil.mp hnext
      | succ count =>
        have hsecond := (List.cons_prefix_cons.mp hnext).1
        rw [show Move.target cursor .wrap = 0 from rfl, h] at hsecond
        cases hsecond
    · exact ih _ hlater

/-- Of moves without two wraps in a row, at most one more is a wrap than is none. -/
theorem count_wrap_le {moves : List Move} (h : ¬ [.wrap, .wrap] <:+: moves) :
    moves.count .wrap ≤ (instructions moves).length + 1 := by
  match moves with
  | [] => simp
  | [.wrap] => simp
  | .wrap :: .wrap :: rest => exact absurd ⟨[], rest, rfl⟩ h
  | .wrap :: .execute i :: rest =>
    have hinside : rest <:+: .wrap :: .execute i :: rest := ⟨[.wrap, .execute i], [], by simp⟩
    have hrest := count_wrap_le fun htwice => h (htwice.trans hinside)
    simp
    omega
  | .execute i :: rest =>
    have hinside : rest <:+: .execute i :: rest := ⟨[.execute i], [], by simp⟩
    have hrest := count_wrap_le fun htwice => h (htwice.trans hinside)
    simp
    omega

/-- Moves that execute nothing are one wrap at most. -/
theorem eq_wrap_of_instructions_eq_nil {moves : List Move} (h : ¬ [.wrap, .wrap] <:+: moves)
    (hnone : instructions moves = []) : moves = [] ∨ moves = [.wrap] := by
  match moves with
  | [] => exact .inl rfl
  | [.wrap] => exact .inr rfl
  | .wrap :: .wrap :: rest => exact absurd ⟨[], rest, rfl⟩ h
  | .wrap :: .execute i :: rest => cases hnone
  | .execute i :: rest => cases hnone

/-! ## Ticks that do not wait -/

variable {p : Position}

/-- A tick that begins with an instruction executes one. -/
theorem executed_pos (hready : ¬ 1 < p.delay) (hbound : 0 < rules.maxSteps) {i : Instruction}
    (hi : moveAt code p.cursor = .execute i) : 0 < (tick rules code p).report.executed := by
  have hhead := head?_movesOf code hready hbound
  rw [hi] at hhead
  obtain ⟨rest, hmoves⟩ := List.head?_eq_some_iff.mp hhead
  rw [(tick_accounts rules code p).executed, hmoves]
  exact Nat.succ_pos _

/-- **A tick that does not wait executes an instruction or goes back to the start.** -/
theorem executed_pos_or_back (hready : ¬ 1 < p.delay) (hbound : 0 < rules.maxSteps)
    (hfirst : moveAt code 0 = .execute first) :
    0 < (tick rules code p).report.executed ∨ (tick rules code p).position = ⟨0, 0⟩ := by
  obtain ⟨haccounts, hend⟩ := tick_moves rules code hready
  by_cases hnone : instructions (movesOf rules code p) = []
  · right
    have hhead := head?_movesOf code hready hbound
    have harrives := haccounts.arrives
    have hmoves : movesOf rules code p = [] ∨ movesOf rules code p = [.wrap] :=
      eq_wrap_of_instructions_eq_nil (no_two_wraps hfirst _ _) hnone
    rcases hmoves with hmoves | hmoves
    · rw [hmoves] at hhead
      cases hhead
    · rcases hend with hcut | hends
      · rw [hmoves] at harrives
        show Position.mk _ _ = _
        rw [harrives, hcut.delay]
        rfl
      · -- a tick that ends with a delay executes it
        obtain ⟨before, ticks, hlast, _⟩ := hends.last
        rw [hlast, instructions_append] at hnone
        cases (List.append_eq_nil_iff.mp hnone).2
  · left
    rw [haccounts.executed]
    exact List.length_pos_iff.mpr hnone

end Player

namespace Sequencer

variable {s : Sequencer} {first : Instruction}

/-- **Two ticks without a wait execute an instruction.** -/
theorem executed_two_ticks (hm : s.mode = .running) (hready : ¬ 1 < s.position.delay)
    (hbound : 0 < s.rules.maxSteps) (hfirst : Player.moveAt s.store.code 0 = .execute first) :
    0 < s.executed (ticks 2) := by
  rw [ticks_succ, executed_cons, report_tick hm, state_tick hm]
  rcases Player.executed_pos_or_back hready hbound hfirst with hone | hback
  · omega
  · have hover : ¬ (1 : UInt8) < 0 := by decide
    have hsecond : 0 < ((s.placed ⟨0, 0⟩).step .tick).answer.report.executed := by
      rw [report_tick (s := s.placed ⟨0, 0⟩) hm]
      exact Player.executed_pos hover hbound hfirst
    rw [hback, ticks_succ, executed_cons]
    omega

/-- **The longest wait.** A delay is over after 254 ticks at most, and two more ticks execute an instruction. -/
theorem executed_ticks (hm : s.mode = .running) (hbound : 0 < s.rules.maxSteps)
    (hfirst : Player.moveAt s.store.code 0 = .execute first) : 0 < s.executed (ticks 256) := by
  have hbyte : s.position.delay.toNat < 256 := s.position.delay.toNat_lt
  obtain ⟨delay, hdelay, hafter, _⟩ := countdown hm (Nat.le_refl (s.position.delay.toNat - 1))
  have hready : ¬ 1 < delay := by
    rw [Player.pending_iff]
    omega
  have htwo : 0 < (s.placed ⟨s.position.cursor, delay⟩).executed (ticks 2) :=
    executed_two_ticks hm hready hbound hfirst
  have hsplit : ticks 256
      = ticks (s.position.delay.toNat - 1) ++ (ticks 2 ++ ticks (254 - (s.position.delay.toNat - 1))) := by
    rw [← ticks_add, ← ticks_add]
    congr 1
    omega
  rw [hsplit, executed_append, executed_append, hafter]
  omega

/-- **A running sequencer neither spins nor stalls.** In every reachable state in which playback is on, the next tick
makes no two wraps without an instruction between them, so that it wraps at most once more than it executes, and 256
ticks in a row execute an instruction, whatever the step bound is. -/
theorem running_never_stalls (hs : s.Reachable) (hm : s.mode = .running) :
    ¬ [.wrap, .wrap] <:+: s.moves
      ∧ (s.step .tick).answer.report.wrapped ≤ (s.step .tick).answer.report.executed + 1
      ∧ 0 < s.executed (List.replicate 256 .tick) := by
  obtain ⟨first, hfirst⟩ := hs.moveAt_zero hm
  have haccounts := Player.tick_accounts s.rules s.store.code s.position
  have hapart : ¬ [.wrap, .wrap] <:+: s.moves := Player.no_two_wraps hfirst _ _
  refine ⟨hapart, ?_, executed_ticks hm hs.maxSteps_pos hfirst⟩
  rw [moves_eq hm] at hapart
  rw [report_tick hm, haccounts.wrapped, haccounts.executed]
  exact Player.count_wrap_le hapart

/-- The longest delay was executed, the cursor stands at the end of the program, and a tick has one step: 255 ticks
execute nothing, and the next one does. -/
theorem running_never_stalls_after_longest_delay :
    ∃ first, new { leds := 1, capacity := 2, maxSteps := 1, code := encode [.delay 255] } = .ok first
      ∧ (first.after [.start, .tick]).Reachable ∧ (first.after [.start, .tick]).mode = .running
      ∧ (first.after [.start, .tick]).executed (List.replicate 255 .tick) = 0
      ∧ 0 < (first.after [.start, .tick]).executed (List.replicate 256 .tick) := by
  have hnew := @new_encode { leds := 1, capacity := 2, maxSteps := 1, code := encode [.delay 255] }
    [.delay 255] rfl (by decide)
  have hs := Reachable.of_run hnew [.start, .tick]
  exact ⟨_, hnew, hs, by decide, by decide +kernel, (running_never_stalls hs (by decide)).2.2⟩

end Sequencer

end StripSequencer
