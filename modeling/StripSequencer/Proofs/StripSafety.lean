import StripSequencer.Proofs.Moves
import StripSequencer.Proofs.Refinement
import StripSequencer.Proofs.Transition

/-!
# `StripSequencer.Proofs.StripSafety` — no write goes past the end of the strip

Pixel instructions with an index beyond the strip can be preloaded, loaded and, under most policies,
entered. Playback is the one place where they are stopped: unless the policy forwards them, no call with
such an index is made, whatever the buffer holds and wherever the cursor stands in it.

## Contents
- `Strip.Call.Within`: a call that stays inside a strip; `Strip.Memory` counts none of them.
- `Player.WritesOnce`, `effect_all`: what an instruction for all pixels does.
- `effect_within`, `Transition.calls_within`, `callsOf_within`: an instruction, an event, a run.
- `ShowsInstructions`: the calls of a tick are the effects of the instructions that it comes to from its cursor on.
- `strip_never_overrun`.
-/

namespace StripSequencer

namespace Strip

/-- The call blanks a strip of the given length or writes to one of its pixels. -/
def Call.Within (leds : UInt8) : Call → Prop
  | .clear => True
  | .setPixel index _ => index < leds

namespace Memory

/-- Calls keep the length of the frame. -/
theorem size_call (m : Memory) (c : Call) : (m.call c).pixels.size = m.pixels.size := by
  cases c with
  | clear => exact Array.size_map
  | setPixel index color => exact Array.size_setIfInBounds

/-- A call inside the strip is not counted as out of range by a frame that is long enough. -/
theorem outOfRange_call {leds : UInt8} {m : Memory} (hsize : leds.toNat ≤ m.pixels.size) {c : Call}
    (h : c.Within leds) : (m.call c).outOfRange = m.outOfRange := by
  have hbeyond : c.isBeyond m.pixels.size = false := by
    cases c with
    | clear => rfl
    | setPixel index color =>
      have hlt : index.toNat < leds.toNat := UInt8.lt_iff_toNat_lt.mp h
      exact decide_eq_false (by omega)
  unfold call
  rw [hbeyond]
  rfl

theorem outOfRange_callAll {leds : UInt8} {m : Memory} (hsize : leds.toNat ≤ m.pixels.size)
    {calls : List Call} (h : ∀ c ∈ calls, c.Within leds) :
    (m.callAll calls.toArray).outOfRange = m.outOfRange := by
  unfold callAll
  rw [List.foldl_toArray]
  induction calls generalizing m with
  | nil => rfl
  | cons c calls ih =>
    have hsize' : leds.toNat ≤ (m.call c).pixels.size := by rwa [size_call]
    rw [List.foldl_cons, ih hsize' fun d hd => h d (List.mem_cons_of_mem c hd)]
    exact outOfRange_call hsize (h c List.mem_cons_self)

end Memory

end Strip

namespace Player

variable {rules : Rules}

/-! ## The effects of instructions -/

/-- The calls write a colour once to every pixel of a strip, and do nothing else. -/
structure WritesOnce (leds : UInt8) (color : Strip.Color) (calls : List Strip.Call) : Prop where
  only : ∀ c ∈ calls, ∃ index < leds, c = .setPixel index color
  once : ∀ index < leds, calls.count (.setPixel index color) = 1

/-- **All pixels are written once.** The indices are counted in a range that is wider than a byte, so the
count ends for every length of the strip, and no two of them are the same byte. -/
theorem effect_all (rules : Rules) (red green blue : UInt8) :
    WritesOnce rules.leds ⟨red, green, blue⟩ (effect rules (.all red green blue)) := by
  have hbyte : rules.leds.toNat < 256 := rules.leds.toNat_lt
  have hvalue : ∀ n ∈ List.range rules.leds.toNat, (UInt8.ofNat n).toNat = n := by
    intro n hn
    have hlt := List.mem_range.mp hn
    exact UInt8.toNat_ofNat_of_lt' (show n < 256 by omega)
  have hnodup : (effect rules (.all red green blue)).Nodup := by
    refine List.pairwise_map.mpr (List.nodup_range.imp_of_mem ?_)
    intro m n hm hn hne heq
    injection heq with hindex
    have hsame := congrArg UInt8.toNat hindex
    rw [hvalue m hm, hvalue n hn] at hsame
    exact hne hsame
  constructor
  · intro c hc
    obtain ⟨n, hn, rfl⟩ := List.mem_map.mp hc
    refine ⟨UInt8.ofNat n, ?_, rfl⟩
    rw [UInt8.lt_iff_toNat_lt, hvalue n hn]
    exact List.mem_range.mp hn
  · intro index hindex
    have hmem : Strip.Call.setPixel index ⟨red, green, blue⟩ ∈ effect rules (.all red green blue) := by
      refine List.mem_map.mpr ⟨index.toNat, List.mem_range.mpr (UInt8.lt_iff_toNat_lt.mp hindex), ?_⟩
      simp
    rw [hnodup.count, if_pos hmem]

/-- **Effects stay inside the strip**, unless pixels beyond it are forwarded. -/
theorem effect_within (h : rules.policy ≠ .forward) (i : Instruction) :
    ∀ c ∈ effect rules i, c.Within rules.leds := by
  intro c hc
  cases i with
  | clear =>
    rw [List.mem_singleton.mp hc]
    trivial
  | delay ticks => cases hc
  | pixel index red green blue =>
    by_cases hdrop : drops rules index = true
    · simp [effect, hdrop] at hc
    · have hlt : index < rules.leds := by
        by_cases hle : rules.leds ≤ index
        · exact absurd (by simp [drops, hle, h]) hdrop
        · exact UInt8.not_le.mp hle
      have hset : c = .setPixel index ⟨red, green, blue⟩ := by simpa [effect, hdrop] using hc
      rw [hset]
      exact hlt
  | all red green blue =>
    obtain ⟨index, hlt, rfl⟩ := (effect_all rules red green blue).only c hc
    exact hlt

end Player

namespace Sequencer

/-! ## Events and runs -/

/-- **The calls of an event stay inside the strip.** Only ticks make calls other than to blank it. -/
theorem Transition.calls_within {s : Sequencer} (hpolicy : s.rules.policy ≠ .forward) {e : Event}
    {o : Outcome} (h : Transition s e o) : ∀ c ∈ o.calls.toList, c.Within s.rules.leds := by
  intro c hc
  cases h with
  | clear | enterEdit | startEmpty | start =>
    rw [List.mem_singleton.mp hc]
    trivial
  | tick _ ht =>
    have haccounts := Player.tick_accounts s.rules s.store.code s.position
    rw [ht] at haccounts
    rw [haccounts.calls] at hc
    obtain ⟨i, -, hi⟩ := List.mem_flatMap.mp hc
    exact Player.effect_within hpolicy i c hi
  | unknownCommand | runOn | nothingToRun | run | pause | exitEdit | unknownOpcode | rejected | noRoom
  | append | idle | busy | tooLong | corrupt | load => cases hc

/-- **The calls of a run stay inside the strip.** -/
theorem callsOf_within {s : Sequencer} (hpolicy : s.rules.policy ≠ .forward) (events : List Event) :
    ∀ c ∈ s.callsOf events, c.Within s.rules.leds := by
  induction events generalizing s with
  | nil =>
    intro c hc
    cases hc
  | cons e events ih =>
    intro c hc
    have hrule := step_transition s e
    have hkept := hrule.setup_kept.1
    rcases List.mem_append.mp hc with hfirst | hlater
    · exact hrule.calls_within hpolicy c hfirst
    · have hwithin := ih (s := (s.step e).state) (by rwa [hkept]) c hlater
      rwa [hkept] at hwithin

/-- An outcome of a tick: its report, its calls and the cursor that it leaves are those of the moves from its cursor on.
Each move executes the instruction that stands at the cursor, and goes behind it, or wraps where none stands. -/
def ShowsInstructions (s : Sequencer) (o : Outcome) : Prop :=
  ∃ report : Player.Report, o.answer = .ticked report
    ∧ Player.Accounts s.rules s.position.cursor ⟨o.state.position, report, o.calls⟩
        (Player.route s.store.code (report.executed + report.wrapped) s.position.cursor)

theorem tick_showsInstructions (s : Sequencer) : s.ShowsInstructions (s.step .tick) := by
  by_cases hm : s.mode = .running
  · rw [step_tick_running hm]
    exact ⟨_, rfl, Player.tick_accounts s.rules s.store.code s.position⟩
  · rw [step_tick_idle hm]
    exact ⟨{}, rfl, .stay rfl rfl rfl rfl rfl⟩

end Sequencer

/-- **The strip is never overrun.** Unless pixels beyond the strip are forwarded, every write of a run, from
any state and over any bytes, has an index inside the strip, so a frame that is long enough counts none
out of range. What a tick does on the strip, at any point of a run, are the effects of the instructions that
it comes to from its cursor on, and that of an instruction for all pixels writes every pixel once. -/
theorem strip_never_overrun {s : Sequencer} (hpolicy : s.rules.policy ≠ .forward)
    (events : List Sequencer.Event) :
    (∀ index color, Strip.Call.setPixel index color ∈ s.callsOf events → index < s.rules.leds)
      ∧ (∀ m : Strip.Memory, s.rules.leds.toNat ≤ m.pixels.size →
          (m.callAll (s.callsOf events).toArray).outOfRange = m.outOfRange)
      ∧ (s.after events).ShowsInstructions ((s.after events).step .tick)
      ∧ ∀ red green blue, Player.WritesOnce s.rules.leds ⟨red, green, blue⟩
          (Player.effect (s.after events).rules (.all red green blue)) := by
  have hwithin := Sequencer.callsOf_within hpolicy events
  refine ⟨?_, ?_, (s.after events).tick_showsInstructions, ?_⟩
  · intro index color hmem
    exact hwithin _ hmem
  · intro m hsize
    exact Strip.Memory.outOfRange_callAll hsize hwithin
  · rw [(s.after_setup_kept events).1]
    exact Player.effect_all s.rules

/-- Under a policy without a name, a preloaded pixel beyond a strip of two is played between others. -/
theorem strip_never_overrun_by_preloaded_pixel :
    ∃ s, Sequencer.new
          { leds := 2, capacity := 20, policy := .ofCode 9,
            code := Program.encode [.pixel 1 8 8 8, .pixel 2 9 9 9, .all 1 2 3, .delay 1] } = .ok s
      ∧ s.rules.policy ≠ .forward
      ∧ s.callsOf [.start, .tick] = [.clear, .setPixel 1 ⟨8, 8, 8⟩, .setPixel 0 ⟨1, 2, 3⟩, .setPixel 1 ⟨1, 2, 3⟩]
      ∧ ∀ m : Strip.Memory, 2 ≤ m.pixels.size →
          (m.callAll (s.callsOf [.start, .tick]).toArray).outOfRange = m.outOfRange := by
  have hnew := @new_encode
    { leds := 2, capacity := 20, policy := .ofCode 9,
      code := Program.encode [.pixel 1 8 8 8, .pixel 2 9 9 9, .all 1 2 3, .delay 1] }
    [.pixel 1 8 8 8, .pixel 2 9 9 9, .all 1 2 3, .delay 1] rfl (by decide)
  refine ⟨_, hnew, by decide, by decide, ?_⟩
  intro m hsize
  exact (strip_never_overrun (by decide) [.start, .tick]).2.1 m hsize

end StripSequencer
