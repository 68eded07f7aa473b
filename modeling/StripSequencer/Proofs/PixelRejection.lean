import StripSequencer.Proofs.Installation
import StripSequencer.Proofs.ProgramFrame
import StripSequencer.Proofs.Refusals

/-!
# `StripSequencer.Proofs.PixelRejection` — refusing pixels early makes the pixel policy invisible

The policy that refuses pixels beyond the strip looks at one way into the program only, the instructions that
are entered; programs that are preloaded or loaded are taken as they are. If those keep to the strip, then
the program does at every point of a run. Playback then never meets a pixel that it has to drop, and the run
is the one that any other policy gives for the events that were not refused for their pixel.

## Contents
- `Instruction.OnStrip`, `Program.OnStrip`: what keeps to the strip; `Cycle.tick_onStrip`: playing it.
- `Holds.program_cases`: what a program can become in one event.
- `Sequencer.Clean`, `Clean.step`, `clean_after`: the program keeps to the strip, in one step and along a run.
- `Transition.withPolicy`, `run_withPolicy`: an event and a run under another policy.
- `rejecting_early_hides_policy`.
-/

namespace StripSequencer

open Program

/-- The instruction is for no single pixel, or for one of a strip of the given length. -/
def Instruction.OnStrip (leds : UInt8) : Instruction → Prop
  | .pixel index .. => index < leds
  | .clear | .delay _ | .all .. => True

instance (leds : UInt8) (i : Instruction) : Decidable (i.OnStrip leds) :=
  match i with
  | .pixel index .. => inferInstanceAs (Decidable (index < leds))
  | .clear | .delay _ | .all .. => .isTrue trivial

/-- Every pixel instruction of the program is for a pixel of the strip. -/
def Program.OnStrip (leds : UInt8) (p : List Instruction) : Prop := ∀ i ∈ p, i.OnStrip leds

instance (leds : UInt8) (p : List Instruction) : Decidable (Program.OnStrip leds p) :=
  inferInstanceAs (Decidable (∀ i ∈ p, i.OnStrip leds))

/-! ## Playing a program that keeps to the strip -/

namespace Player

variable {rules : Rules} {i : Instruction}

/-- The rules with another policy. -/
def Rules.withPolicy (rules : Rules) (policy : PixelPolicy) : Rules := { rules with policy }

/-- No policy drops a pixel of the strip. -/
theorem drops_eq_false {index : UInt8} (h : index < rules.leds) : drops rules index = false := by
  have hle : ¬ rules.leds ≤ index := UInt8.not_le.mpr h
  simp [drops, hle]

theorem isSkipped_eq_false (h : i.OnStrip rules.leds) : isSkipped rules i = false := by
  cases i with
  | pixel index red green blue => exact drops_eq_false h
  | clear | delay | all => rfl

/-- What is on the strip is played in the same way under every policy. -/
theorem effect_withPolicy (policy : PixelPolicy) (h : i.OnStrip rules.leds) :
    effect (rules.withPolicy policy) i = effect rules i := by
  cases i with
  | pixel index red green blue =>
    have hthere : drops (rules.withPolicy policy) index = false := drops_eq_false h
    have hhere : drops rules index = false := drops_eq_false h
    simp only [effect, hthere, hhere]
  | clear | delay | all => rfl

/-- What is on the strip is counted as executed, and never as skipped. -/
theorem count_onStrip (report : Report) (h : i.OnStrip rules.leds) :
    report.count rules i = { report with executed := report.executed + 1 } := by
  unfold Report.count
  rw [isSkipped_eq_false h]
  rfl

end Player

namespace Cycle

variable {rules : Player.Rules} {p : List Instruction}

/-- **The steps of a tick.** By induction on the steps: every instruction that is met is one of the program,
so the policy decides nothing and nothing is skipped. -/
theorem run_onStrip (policy : PixelPolicy) (h : OnStrip rules.leds p) (steps next : Nat)
    (report : Player.Report) (calls : Array Strip.Call) :
    run (rules.withPolicy policy) p steps next report calls = run rules p steps next report calls
      ∧ (run rules p steps next report calls).report.skipped = report.skipped := by
  induction steps generalizing next report calls with
  | zero => exact ⟨rfl, rfl⟩
  | succ steps ih =>
    rw [run, run]
    cases hget : p[next]? with
    | none => exact ih 0 { report with wrapped := report.wrapped + 1 } calls
    | some i =>
      have hi : i.OnStrip rules.leds := h i (List.mem_of_getElem? hget)
      have hcount : report.count (rules.withPolicy policy) i = report.count rules i := by
        have hother : i.OnStrip (rules.withPolicy policy).leds := hi
        rw [Player.count_onStrip report hi, Player.count_onStrip report hother]
      have hskipped : (report.count rules i).skipped = report.skipped := by
        rw [Player.count_onStrip report hi]
      -- an instruction other than a delay is followed by the rest of the steps
      have hon : run (rules.withPolicy policy) p steps (next + 1) (report.count (rules.withPolicy policy) i)
              (calls ++ Player.effect (rules.withPolicy policy) i)
            = run rules p steps (next + 1) (report.count rules i) (calls ++ Player.effect rules i)
          ∧ (run rules p steps (next + 1) (report.count rules i)
              (calls ++ Player.effect rules i)).report.skipped = report.skipped := by
        rw [hcount, Player.effect_withPolicy policy hi, ← hskipped]
        exact ih (next + 1) (report.count rules i) (calls ++ Player.effect rules i)
      cases i with
      | delay ticks => exact ⟨rfl, rfl⟩
      | clear => exact hon
      | pixel index red green blue => exact hon
      | all red green blue => exact hon

/-- **A tick over a program that keeps to the strip** is the same under every policy, and skips nothing. -/
theorem tick_onStrip (policy : PixelPolicy) (h : OnStrip rules.leds p) (next : Nat) (delay : UInt8) :
    tick (rules.withPolicy policy) p next delay = tick rules p next delay
      ∧ (tick rules p next delay).report.skipped = 0 := by
  unfold tick
  by_cases hdelay : 1 < delay
  · rw [if_pos hdelay, if_pos hdelay]
    exact ⟨rfl, rfl⟩
  · rw [if_neg hdelay, if_neg hdelay]
    exact run_onStrip policy h rules.maxSteps next {} #[]

end Cycle

namespace Sequencer

/-! ## The program keeps to the strip -/

/-- A program that is loaded keeps to the strip. -/
def LoadsOnStrip (s : Sequencer) : Event → Prop
  | .load code => (s.step (.load code)).answer = .done → OnStrip s.rules.leds (decode code)
  | .command .. | .tick | .start => True

/-- A state of an orderly run in which every pixel instruction of the program is for a pixel of the strip. -/
structure Clean (s : Sequencer) : Prop where
  reached : s.Reached
  onStrip : ∃ p, s.program = encode p ∧ OnStrip s.rules.leds p

/-- An instruction that is not refused for its pixel keeps to the strip. -/
theorem onStrip_of_rejection? {rules : Player.Rules} (hpolicy : rules.policy = .reject) {i : Instruction}
    (h : rejection? rules i = none) : i.OnStrip rules.leds := by
  cases i with
  | pixel index red green blue =>
    show index < rules.leds
    apply UInt8.not_le.mp
    intro hle
    rw [rejection?, if_pos ⟨hpolicy, hle⟩] at h
    cases h
  | clear | delay | all => trivial

/-- Outside command entry a start of playback lays nothing open. -/
theorem uncovered_of_admits {s : Sequencer} {e : Event} (h : s.Admits e) : s.uncovered e = [] := by
  cases e with
  | start => exact if_neg (h rfl)
  | command | tick | load => rfl

namespace Clean

variable {s : Sequencer}

theorem exists_holds (h : s.Clean) : ∃ p, s.Holds p ∧ OnStrip s.rules.leds p := by
  obtain ⟨p, hp, hon⟩ := h.onStrip
  obtain ⟨setup, first, events, hnew, _, hs⟩ := h.reached
  obtain ⟨q, hq⟩ := Reachable.exists_program ⟨setup, first, events, hnew, hs⟩
  have hpq : p = q := encode_injective (by rw [← hp, hq.program_eq])
  exact ⟨q, hq, hpq ▸ hon⟩

theorem exists_ideal (h : s.Clean) : ∃ a, Realizes s a ∧ OnStrip s.rules.leds a.program := by
  obtain ⟨p, hp, hon⟩ := h.onStrip
  obtain ⟨a, ha⟩ := h.reached.exists_ideal
  have hpa : p = a.program := encode_injective (by rw [← hp, ha.program_eq])
  exact ⟨a, ha, hpa ▸ hon⟩

/-- **One event.** Pixels that are entered are checked, and those that are loaded are assumed to be on the
strip; there is no third way into the program. -/
theorem step (h : s.Clean) (hpolicy : s.rules.policy = .reject) {e : Event} (he : s.Admits e)
    (hload : s.LoadsOnStrip e) : (s.step e).state.Clean := by
  obtain ⟨p, hp, hon⟩ := h.exists_holds
  have hrule := step_transition s e
  obtain ⟨q, hq, hcases⟩ := hp.program_cases hrule
  have horderly : s.Orderly [e] := ⟨he, trivial⟩
  refine ⟨h.reached.after horderly, q, hq.program_eq, ?_⟩
  rw [hrule.setup_kept.1]
  rcases hcases with hkept | ⟨⟨hdone, _⟩, hedited⟩
  · rw [hkept, uncovered_of_admits he, List.append_nil]
    exact hon
  · cases hedited with
    | clear =>
      intro i hi
      cases hi
    | append hallowed =>
      intro j hj
      rcases List.mem_append.mp hj with hold | hnew
      · exact hon j hold
      · rw [List.mem_singleton.mp hnew]
        exact onStrip_of_rejection? hpolicy hallowed
    | load =>
      have hloaded := hload hdone
      rw [decode_encode] at hloaded
      exact hloaded

/-- **A run.** -/
theorem after (h : s.Clean) (hpolicy : s.rules.policy = .reject) {events : List Event}
    (ho : s.Orderly events) (hloads : Along LoadsOnStrip s events) : (s.after events).Clean := by
  induction events generalizing s with
  | nil => exact h
  | cons e events ih =>
    have hrules := (step_transition s e).setup_kept.1
    exact ih (h.step hpolicy ho.1 hloads.1) (by rw [hrules, hpolicy]) ho.2 hloads.2

/-- A new sequencer is clean if the program that it is given keeps to the strip. -/
theorem of_new {setup : Setup} (hnew : new setup = .ok s) (hpreload : OnStrip setup.leds (decode setup.code)) :
    s.Clean := by
  refine ⟨Reached.of_new hnew, ?_⟩
  cases new_transition hnew with
  | load _ _ hvalid =>
    obtain ⟨p, hp⟩ := exists_encode_of_validate hvalid
    rw [hp] at hpreload ⊢
    rw [decode_encode] at hpreload
    exact ⟨p, (Holds.replaced (s := setup.blank) nofun).program_eq, hpreload⟩

/-- A tick is the same under every policy, and skips nothing. -/
theorem tick (h : s.Clean) (hm : s.mode = .running) (policy : PixelPolicy) :
    Player.tick (s.rules.withPolicy policy) s.store.code s.position
        = Player.tick s.rules s.store.code s.position
      ∧ (Player.tick s.rules s.store.code s.position).report.skipped = 0 := by
  obtain ⟨a, ha, hon⟩ := h.exists_ideal
  have hmode : a.mode ≠ .commandEntry := by
    rw [← ha.mode, hm]
    decide
  obtain ⟨rest, hcode, hended⟩ := ha.layout_ended hmode
  obtain ⟨hsame, hskipped⟩ := Cycle.tick_onStrip policy hon a.next a.delay
  rw [hcode, ha.position, Cycle.tick_layout hended.read?_eq_none, Cycle.tick_layout hended.read?_eq_none,
    hsame]
  exact ⟨rfl, hskipped⟩

end Clean

/-! ## Another policy -/

/-- The state with another policy. -/
def withPolicy (s : Sequencer) (policy : PixelPolicy) : Sequencer :=
  { s with rules := s.rules.withPolicy policy }

/-- The outcome with another policy in its state. -/
def Outcome.withPolicy (o : Outcome) (policy : PixelPolicy) : Outcome :=
  { o with state := o.state.withPolicy policy }

/-- The answer is that a pixel lies beyond the strip. -/
def Answer.isPixelRefusal (answer : Answer) : Bool := answer.cause? = some .pixelOutOfRange

/-- An instruction that is not refused for its pixel is not refused for it under any policy. -/
theorem rejection?_withPolicy {rules : Player.Rules} (hpolicy : rules.policy = .reject) {i : Instruction}
    (h : rejection? rules i = none) (policy : PixelPolicy) :
    rejection? (rules.withPolicy policy) i = none := by
  apply rejection?_eq_none_of_within
  rintro - index red green blue rfl
  exact onStrip_of_rejection? hpolicy h

/-- **One event.** Unless it is refused for its pixel, the rule that it follows applies under every policy. -/
theorem Transition.withPolicy {s : Sequencer} {e : Event} {o : Outcome} (h : Transition s e o)
    (hs : s.Clean) (hpolicy : s.rules.policy = .reject) (hpixel : o.answer.isPixelRefusal = false)
    (policy : PixelPolicy) : Transition (s.withPolicy policy) e (o.withPolicy policy) := by
  cases h with
  | unknownCommand hm hb => exact .unknownCommand hm hb
  | clear hm hb => exact .clear hm hb
  | runOn hm hb => exact .runOn hm hb
  | nothingToRun hm hb hempty => exact .nothingToRun hm hb hempty
  | run hm hb hfull => exact .run hm hb hfull
  | pause hm hb => exact .pause hm hb
  | enterEdit hm hb => exact .enterEdit hm hb
  | exitEdit hm => exact .exitEdit hm
  | unknownOpcode hm hne hb => exact .unknownOpcode hm hne hb
  | rejected hm hb hrejection =>
    obtain ⟨_, rfl⟩ := rejection?_eq_some_iff.mp hrejection
    cases hpixel
  | noRoom hm hb hallowed hover => exact .noRoom hm hb (rejection?_withPolicy hpolicy hallowed policy) hover
  | append hm hb hallowed hroom => exact .append hm hb (rejection?_withPolicy hpolicy hallowed policy) hroom
  | tick hm ht => exact .tick hm ((hs.tick hm policy).1.trans ht)
  | idle hm => exact .idle hm
  | busy hm => exact .busy hm
  | tooLong hm hlen => exact .tooLong hm hlen
  | corrupt hm hlen hv => exact .corrupt hm hlen hv
  | load hm hlen hv => exact .load hm hlen hv
  | startEmpty hm hempty => exact .startEmpty hm hempty
  | start hfull => exact .start hfull

/-- The events of a run that are not refused for their pixel. -/
def unrejected (s : Sequencer) : List Event → List Event
  | [] => []
  | e :: events =>
    if (s.step e).answer.isPixelRefusal then unrejected (s.step e).state events
    else e :: unrejected (s.step e).state events

/-- **A run under another policy.** By induction on the run: an event that is refused for its pixel changes
nothing and is left out, and any other event comes to the same. -/
theorem run_withPolicy {s : Sequencer} (hs : s.Clean) (hpolicy : s.rules.policy = .reject)
    {events : List Event} (ho : s.Orderly events) (hloads : Along LoadsOnStrip s events)
    (policy : PixelPolicy) :
    (s.withPolicy policy).replies (s.unrejected events)
        = (s.replies events).filter (fun reply => !reply.1.isPixelRefusal)
      ∧ (s.withPolicy policy).after (s.unrejected events) = (s.after events).withPolicy policy := by
  induction events generalizing s with
  | nil => exact ⟨rfl, rfl⟩
  | cons e events ih =>
    have hrule := step_transition s e
    have hrules := hrule.setup_kept.1
    obtain ⟨hreplies, hafter⟩ :=
      ih (hs.step hpolicy ho.1 hloads.1) (by rw [hrules, hpolicy]) ho.2 hloads.2
    rw [replies_cons, after_cons, unrejected]
    cases hpixel : (s.step e).answer.isPixelRefusal with
    | true =>
      -- a refused event leaves the state as it was
      have hstate : (s.step e).state = s := by
        cases hanswer : (s.step e).answer with
        | refused why => rw [step_of_refused hanswer]
        | done | ticked => rw [hanswer] at hpixel; cases hpixel
      rw [if_pos rfl, List.filter_cons_of_neg (by simp [hpixel]), hstate]
      rw [hstate] at hreplies hafter
      exact ⟨hreplies, hafter⟩
    | false =>
      have hstep := (hrule.withPolicy hs hpolicy hpixel policy).step_eq
      rw [if_neg (by decide), List.filter_cons_of_pos (by simp [hpixel]), replies_cons, after_cons, hstep]
      exact ⟨congrArg _ hreplies, hafter⟩

/-- The reports of a run skip nothing. -/
theorem skipped_eq_zero {s : Sequencer} (hs : s.Clean) (hpolicy : s.rules.policy = .reject)
    {events : List Event} (ho : s.Orderly events) (hloads : Along LoadsOnStrip s events)
    {report : Player.Report} (h : .ticked report ∈ s.answers events) : report.skipped = 0 := by
  induction events generalizing s with
  | nil => cases h
  | cons e events ih =>
    have hrule := step_transition s e
    rw [answers_cons] at h
    rcases List.mem_cons.mp h with hfirst | hlater
    · generalize s.step e = o at hrule hfirst
      cases hrule with
      | tick hm ht =>
        injection hfirst with hreport
        rw [hreport, ← ht]
        exact (hs.tick hm s.rules.policy).2
      | idle =>
        injection hfirst with hreport
        rw [hreport]
      | unknownCommand | clear | runOn | nothingToRun | run | pause | enterEdit | exitEdit | unknownOpcode
      | rejected | noRoom | append | busy | tooLong | corrupt | load | startEmpty | start => cases hfirst
    · have hrules := hrule.setup_kept.1
      exact ih (hs.step hpolicy ho.1 hloads.1) (by rw [hrules, hpolicy]) ho.2 hloads.2 hlater

/-- The setup with another policy gives the same sequencer with that policy. -/
theorem new_withPolicy {setup : Setup} {s : Sequencer} (h : new setup = .ok s) (policy : PixelPolicy) :
    new { setup with policy } = .ok (s.withPolicy policy) := by
  unfold new at h ⊢
  cases hload : (Store.empty setup.capacity).load setup.code with
  | error why =>
    rw [hload] at h
    cases h
  | ok store =>
    rw [hload] at h
    cases h
    rfl

end Sequencer

/-- **Refusing pixels early makes the policy invisible.** Let a sequencer refuse pixels beyond the strip when
they are entered, and let the program that it is given and those that are loaded keep to the strip. Then at
every point of an orderly run the program keeps to the strip, no tick skips anything, and with any other
policy the run without the events that were refused for their pixel gives the same answers, reports and
calls, and ends in the same state. -/
theorem rejecting_early_hides_policy {setup : Sequencer.Setup} {s : Sequencer}
    (hnew : Sequencer.new setup = .ok s) (hpolicy : setup.policy = .reject)
    (hpreload : OnStrip setup.leds (decode setup.code)) {events : List Sequencer.Event}
    (ho : s.Orderly events) (hloads : s.Along Sequencer.LoadsOnStrip events) :
    (∀ k, ∃ p, (s.after (events.take k)).program = encode p ∧ OnStrip setup.leds p)
      ∧ (∀ report, .ticked report ∈ s.answers events → report.skipped = 0)
      ∧ ∀ policy, ∃ t, Sequencer.new { setup with policy } = .ok t
        ∧ t.replies (s.unrejected events)
          = (s.replies events).filter (fun reply => !reply.1.isPixelRefusal)
        ∧ t.after (s.unrejected events) = (s.after events).withPolicy policy := by
  have hclean := Sequencer.Clean.of_new hnew hpreload
  have hrules : s.rules = setup.rules := (new_setup_kept hnew []).1
  have hreject : s.rules.policy = .reject := by
    rw [hrules]
    exact hpolicy
  refine ⟨?_, ?_, ?_⟩
  · intro k
    obtain ⟨p, hp, hon⟩ := (hclean.after hreject (ho.take k) (hloads.take k)).onStrip
    rw [(new_setup_kept hnew (events.take k)).1] at hon
    exact ⟨p, hp, hon⟩
  · intro report hreport
    exact Sequencer.skipped_eq_zero hclean hreject ho hloads hreport
  · intro policy
    exact ⟨_, Sequencer.new_withPolicy hnew policy, Sequencer.run_withPolicy hclean hreject ho hloads policy⟩

/-- The program is played, another one is loaded over it, and in an edit session one pixel lies beyond a strip
of two, one is appended, and one does not fit. Of the events, the pixel beyond the strip is left out. -/
theorem rejecting_early_hides_forwarding :
    ∃ s t, Sequencer.new
          { leds := 2, capacity := 8, policy := .reject, code := encode [.pixel 1 7 7 7, .delay 1] } = .ok s
      ∧ Sequencer.new
          { leds := 2, capacity := 8, policy := .forward, code := encode [.pixel 1 7 7 7, .delay 1] } = .ok t
      ∧ (s.step (.command 4 {})).state.answers [.command 2 ⟨2, 9, 9, 9⟩]
        = [.refused (.pixelBeyond 2 2)]
      ∧ t.replies [.start, .tick, .command 3 {}, .load (encode [.delay 2]), .command 4 {},
            .command 2 ⟨0, 9, 9, 9⟩, .command 2 ⟨1, 9, 9, 9⟩, .command 0 {}, .command 2 {}, .tick]
        = (s.replies [.start, .tick, .command 3 {}, .load (encode [.delay 2]), .command 4 {},
            .command 2 ⟨2, 9, 9, 9⟩, .command 2 ⟨0, 9, 9, 9⟩, .command 2 ⟨1, 9, 9, 9⟩, .command 0 {},
            .command 2 {}, .tick]).filter (fun reply => !reply.1.isPixelRefusal) := by
  have hnew := @new_encode
    { leds := 2, capacity := 8, policy := .reject, code := encode [.pixel 1 7 7 7, .delay 1] }
    [.pixel 1 7 7 7, .delay 1] rfl (by decide)
  have hpreload : OnStrip 2 (decode (encode [.pixel 1 7 7 7, .delay 1])) := by
    rw [decode_encode]
    decide
  have hload : OnStrip 2 (decode (encode [.delay 2])) := by
    rw [decode_encode]
    decide
  obtain ⟨_, _, hpolicies⟩ := rejecting_early_hides_policy hnew rfl hpreload
    (show Sequencer.Orderly _ [.start, .tick, .command 3 {}, .load (encode [.delay 2]), .command 4 {},
      .command 2 ⟨2, 9, 9, 9⟩, .command 2 ⟨0, 9, 9, 9⟩, .command 2 ⟨1, 9, 9, 9⟩, .command 0 {},
      .command 2 {}, .tick] by decide)
    ⟨trivial, trivial, trivial, fun _ => hload, trivial, trivial, trivial, trivial, trivial, trivial,
      trivial, trivial⟩
  obtain ⟨t, ht, hreplies, _⟩ := hpolicies .forward
  exact ⟨_, t, hnew, ht, by decide, (congrArg t.replies (by decide +kernel)).trans hreplies⟩

end StripSequencer
