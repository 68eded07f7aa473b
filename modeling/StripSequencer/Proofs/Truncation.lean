import StripSequencer.Player

/-!
# `StripSequencer.Proofs.Truncation` — the step bound of a tick only splits its work

A tick that reaches its step bound stops wherever it stands: before or after a wrap, before a delay, or after
a pixel that was dropped. The next tick goes on from there. So two ticks, the second of which is made only if the
first one was cut short, do together what one tick does whose bound is the sum of their bounds. This holds over
any buffer and for any place of the cursor in it or beyond it.

## Contents
- `Report.followed`, `Tick.followed`: two ticks taken together.
- `run_accumulates`: what a tick did before has no influence on what it does next.
- `run_resumes`: the steps of a tick, split anywhere.
- `truncation_splits_work`.
-/

namespace StripSequencer

namespace Player

/-- The rules with another step bound. -/
def Rules.bounded (rules : Rules) (maxSteps : Nat) : Rules := { rules with maxSteps }

/-- Two reports taken together: the counts are added, and the second one says how it ended. -/
def Report.followed (first second : Report) : Report where
  executed := first.executed + second.executed
  wrapped := first.wrapped + second.wrapped
  skipped := first.skipped + second.skipped
  waiting := second.waiting
  truncated := second.truncated

/-- Two ticks taken together: the calls of the second one come after those of the first one, and playback is
where the second one left it. -/
def Tick.followed (first second : Tick) : Tick where
  position := second.position
  report := first.report.followed second.report
  calls := first.calls ++ second.calls

/-- The report is that of a tick which has not come to its end. -/
structure Report.Ongoing (r : Report) : Prop where
  waiting : r.waiting = false
  truncated : r.truncated = false

variable {rules : Rules} {code : List UInt8}

namespace Report

theorem Ongoing.empty : Ongoing {} := ⟨rfl, rfl⟩

/-- Going back to the start of the program does not end a tick. -/
theorem Ongoing.wrap {r : Report} (h : r.Ongoing) : Ongoing { r with wrapped := r.wrapped + 1 } :=
  ⟨h.waiting, h.truncated⟩

/-- Executing an instruction is counted, and does not end a tick by itself. -/
theorem Ongoing.count {r : Report} (h : r.Ongoing) (i : Instruction) : (r.count rules i).Ongoing :=
  ⟨h.waiting, h.truncated⟩

/-- Counting on is adding the count of a report that begins anew. -/
theorem Ongoing.count_eq {r : Report} (h : r.Ongoing) (i : Instruction) :
    r.count rules i = r.followed (Report.count rules i {}) := by
  unfold Report.count followed
  rw [h.waiting, h.truncated]
  by_cases hskipped : isSkipped rules i = true
  · simp [hskipped]
  · simp [hskipped]

theorem Ongoing.wrap_eq {r : Report} (h : r.Ongoing) :
    { r with wrapped := r.wrapped + 1 } = r.followed { wrapped := 1 } := by
  unfold followed
  rw [h.waiting, h.truncated]
  rfl

end Report

theorem Tick.followed_assoc (a b c : Tick) : (a.followed b).followed c = a.followed (b.followed c) := by
  simp [Tick.followed, Report.followed, Nat.add_assoc, Array.append_assoc]

/-! ## The steps of a tick -/

/-- **Nothing depends on what was done before.** By induction on the steps: each of them adds to the report and
the calls that are there. -/
theorem run_accumulates (steps cursor : Nat) (rest : List UInt8) {report : Report} (h : report.Ongoing)
    (calls : Array Strip.Call) (p : Position) :
    run rules code steps cursor rest report calls
      = (⟨p, report, calls⟩ : Tick).followed (run rules code steps cursor rest {} #[]) := by
  induction steps generalizing cursor rest report calls p with
  | zero => simp [run, Tick.followed, Report.followed, h.waiting]
  | succ steps ih =>
    cases hread : Instruction.read? rest with
    | none =>
      have hone : Report.Ongoing { wrapped := 1 } := ⟨rfl, rfl⟩
      rw [run_wrap hread, run_wrap hread, ih 0 code h.wrap calls p, ih 0 code hone #[] p, ← Tick.followed_assoc,
        h.wrap_eq]
      simp [Tick.followed]
    | some found =>
      obtain ⟨i, after⟩ := found
      rcases i.delay_or_other with ⟨ticks, rfl⟩ | hi
      · rw [run_delay hread, run_delay hread, h.count_eq]
        simp [Tick.followed]
      · rw [run_other hread hi, run_other hread hi, ih _ after (h.count i) _ p,
          ih _ after (Report.Ongoing.empty.count i) _ p, ← Tick.followed_assoc, h.count_eq]
        simp [Tick.followed, ← Array.toList_inj]

/-- **Steps can be split anywhere.** By induction on the steps of the first part: a step is the same in both
runs, and a first part without steps left over is cut short where the second part begins. -/
theorem run_resumes (steps more cursor : Nat) {report : Report} (h : report.Ongoing)
    (calls : Array Strip.Call) :
    run rules code (steps + more) cursor (code.drop cursor) report calls
      = let first := run rules code steps cursor (code.drop cursor) report calls
        if first.report.truncated then
          first.followed
            (run rules code more first.position.cursor (code.drop first.position.cursor) {} #[])
        else first := by
  induction steps generalizing cursor report calls with
  | zero =>
    rw [Nat.zero_add, run_accumulates more cursor (code.drop cursor) h calls ⟨cursor, 0⟩]
    rfl
  | succ steps ih =>
    rw [Nat.succ_add]
    cases hread : Instruction.read? (code.drop cursor) with
    | none =>
      rw [run_wrap hread, run_wrap hread]
      exact ih 0 h.wrap calls
    | some found =>
      obtain ⟨i, after⟩ := found
      rcases i.delay_or_other with ⟨ticks, rfl⟩ | hi
      · -- the tick ends, and was not cut short
        have hended : (report.count rules (.delay ticks)).truncated = false := h.truncated
        rw [run_delay hread, run_delay hread]
        simp [hended]
      · rw [run_other hread hi, run_other hread hi, Instruction.eq_drop_of_read? hread]
        exact ih (cursor + i.size) (h.count i) (calls ++ effect rules i)

/-- The step bound is looked at when a tick begins only. -/
theorem run_bounded (bound steps cursor : Nat) (rest : List UInt8) (report : Report) (calls : Array Strip.Call) :
    run (rules.bounded bound) code steps cursor rest report calls = run rules code steps cursor rest report calls := by
  induction steps generalizing cursor rest report calls with
  | zero => rfl
  | succ steps ih =>
    cases hread : Instruction.read? rest with
    | none =>
      rw [run_wrap hread, run_wrap hread]
      exact ih ..
    | some found =>
      obtain ⟨i, after⟩ := found
      rcases i.delay_or_other with ⟨ticks, rfl⟩ | hi
      · rw [run_delay hread, run_delay hread]
        rfl
      · rw [run_other hread hi, run_other hread hi]
        exact ih ..

theorem tick_bounded_of_le {p : Position} (h : ¬1 < p.delay) (bound : Nat) :
    tick (rules.bounded bound) code p = run rules code bound p.cursor (code.drop p.cursor) {} #[] := by
  unfold tick
  rw [if_neg h]
  exact run_bounded bound bound p.cursor (code.drop p.cursor) {} #[]

/-- A tick that was cut short leaves no delay, so that the next one begins with its steps. -/
theorem delay_of_truncated (steps cursor : Nat) (rest : List UInt8) {report : Report} (h : report.Ongoing)
    (calls : Array Strip.Call)
    (htruncated : (run rules code steps cursor rest report calls).report.truncated = true) :
    (run rules code steps cursor rest report calls).position.delay = 0 := by
  induction steps generalizing cursor rest report calls with
  | zero => rfl
  | succ steps ih =>
    cases hread : Instruction.read? rest with
    | none =>
      rw [run_wrap hread] at htruncated ⊢
      exact ih 0 code h.wrap calls htruncated
    | some found =>
      obtain ⟨i, after⟩ := found
      rcases i.delay_or_other with ⟨ticks, rfl⟩ | hi
      · rw [run_delay hread] at htruncated
        exact absurd (h.truncated.symm.trans htruncated) (by decide)
      · rw [run_other hread hi] at htruncated ⊢
        exact ih _ after (h.count i) _ htruncated

/-! ## Ticks -/

/-- **Truncation only splits work.** A tick under the sum of two bounds comes to the same as a tick under the
first bound, followed by one under the second bound if and only if the first one was cut short. -/
theorem truncation_splits_work (rules : Rules) (code : List UInt8) (p : Position) (bound more : Nat) :
    tick (rules.bounded (bound + more)) code p
      = let first := tick (rules.bounded bound) code p
        if first.report.truncated then first.followed (tick (rules.bounded more) code first.position)
        else first := by
  by_cases hdelay : 1 < p.delay
  · -- a tick that waits looks at no bound
    have hwaits : ∀ bound, tick (rules.bounded bound) code p
        = ⟨{ p with delay := p.delay - 1 }, { waiting := true }, #[]⟩ := fun _ => if_pos hdelay
    rw [hwaits, hwaits]
    rfl
  · rw [tick_bounded_of_le hdelay, tick_bounded_of_le hdelay, run_resumes bound more p.cursor .empty]
    generalize hfirst : run rules code bound p.cursor (code.drop p.cursor) {} #[] = first
    dsimp only
    by_cases htruncated : first.report.truncated = true
    · have hnone : first.position.delay = 0 := by
        rw [← hfirst] at htruncated ⊢
        exact delay_of_truncated bound p.cursor _ .empty #[] htruncated
      have hready : ¬1 < first.position.delay := by
        rw [hnone]
        decide
      rw [tick_bounded_of_le hready]
    · rw [if_neg htruncated, if_neg htruncated]

end Player

end StripSequencer
