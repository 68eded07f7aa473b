import StripSequencer.Image
import StripSequencer.Listing
import StripSequencer.Proofs.Refinement

/-!
# `StripSequencer.Proofs.StaleBytes` — bytes behind the program are never seen

Programs are not erased: what an earlier program left behind the end of the current one stays in the
buffer, and may look like instructions. Two sequencers that differ in such bytes only cannot be told
apart by any orderly run, because both realize the same ideal sequencer.

## Contents
- `Sequencer.View`, `Sequencer.Observation`: all that can be seen, except for the raw buffer.
- `Sequencer.Alike`: two states that differ in stale bytes only.
- `stale_bytes_unobservable`: they give the same observations, event by event.
-/

namespace StripSequencer

open Program

namespace Sequencer

/-- All that can be seen of a sequencer, except for the raw buffer. -/
structure View where
  snapshot : Snapshot
  program : List UInt8
  listing : String
  image : List UInt8
deriving DecidableEq, Repr

/-- What can be seen of a sequencer. -/
def view (s : Sequencer) : View where
  snapshot := s.snapshot
  program := s.program
  listing := s.listing
  image := (Image.ofSequencer s).encode

/-- What can be seen of an event: the answer, the calls on the strip, and the state after it. -/
structure Observation where
  answer : Answer
  calls : Array Strip.Call
  view : View
deriving DecidableEq, Repr

/-- What can be seen of an outcome. -/
def Outcome.observed (o : Outcome) : Observation := ⟨o.answer, o.calls, o.state.view⟩

/-- What can be seen of a run, event by event. -/
def observations (s : Sequencer) (events : List Event) : List Observation :=
  (s.outcomes events).map Outcome.observed

@[simp] theorem observations_cons (s : Sequencer) (e : Event) (events : List Event) :
    s.observations (e :: events) = (s.step e).observed :: (s.step e).state.observations events := rfl

/-- Two states agree on everything but the bytes behind the program. -/
structure Alike (s t : Sequencer) : Prop where
  rules : s.rules = t.rules
  mode : s.mode = t.mode
  capacity : s.store.capacity = t.store.capacity
  remaining : s.store.remaining = t.store.remaining
  appendCursor : s.appendCursor = t.appendCursor
  position : s.position = t.position
  code : s.store.leading s.programEnd = t.store.leading s.programEnd

instance (s t : Sequencer) : Decidable (s.Alike t) :=
  decidable_of_iff
    (s.rules = t.rules ∧ s.mode = t.mode ∧ s.store.capacity = t.store.capacity
      ∧ s.store.remaining = t.store.remaining ∧ s.appendCursor = t.appendCursor
      ∧ s.position = t.position ∧ s.store.leading s.programEnd = t.store.leading s.programEnd)
    ⟨fun ⟨h1, h2, h3, h4, h5, h6, h7⟩ => ⟨h1, h2, h3, h4, h5, h6, h7⟩,
      fun ⟨h1, h2, h3, h4, h5, h6, h7⟩ => ⟨h1, h2, h3, h4, h5, h6, h7⟩⟩

/-- A listing is made from the snapshot and the program. -/
theorem listing_congr {s t : Sequencer} (hsnapshot : s.snapshot = t.snapshot)
    (hprogram : s.program = t.program) : s.listing = t.listing := by
  have hmode : s.mode = t.mode := congrArg Snapshot.mode hsnapshot
  have hcapacity : s.store.capacity = t.store.capacity := congrArg Snapshot.capacity hsnapshot
  have hcursor : s.position.cursor = t.position.cursor := congrArg Snapshot.playCursor hsnapshot
  have hmark : s.mark? = t.mark? := by
    unfold mark?
    rw [hmode, hcursor]
  have hfinal : s.finalRow = t.finalRow := by
    unfold finalRow
    rw [hprogram, hmark, hmode, hcapacity]
  unfold listing listingRows
  rw [hsnapshot, hprogram, hmark, hfinal]

end Sequencer

/-! ## Two sequencers for one ideal one -/

variable {s t : Sequencer} {a : Ideal}

/-- Sequencers that realize the same ideal one look the same. -/
theorem view_eq_of_realizes (hs : Realizes s a) (ht : Realizes t a) : s.view = t.view := by
  have hsnapshot : s.snapshot = t.snapshot := by rw [hs.snapshot_eq, ht.snapshot_eq]
  have hprogram : s.program = t.program := by rw [hs.program_eq, ht.program_eq]
  have himage : Image.ofSequencer s = Image.ofSequencer t := by
    unfold Image.ofSequencer
    rw [hs.capacity, ht.capacity, hs.rules, ht.rules, hprogram]
  unfold Sequencer.view
  rw [Sequencer.listing_congr hsnapshot hprogram, hsnapshot, hprogram, himage]

/-- They admit the same events. -/
theorem admits_of_realizes (hs : Realizes s a) (ht : Realizes t a) {e : Sequencer.Event}
    (he : s.Admits e) : t.Admits e := by
  intro hstart
  rw [ht.mode, ← hs.mode]
  exact he hstart

/-- They look the same all along a run. -/
theorem observations_eq_of_realizes (hs : Realizes s a) (ht : Realizes t a)
    {events : List Sequencer.Event} (ho : s.Orderly events) :
    t.Orderly events ∧ s.observations events = t.observations events := by
  induction events generalizing s t a with
  | nil => exact ⟨trivial, rfl⟩
  | cons e events ih =>
    have hadmits := admits_of_realizes hs ht ho.1
    have hs' := step_matches hs ho.1
    have ht' := step_matches ht hadmits
    obtain ⟨horderly, hrest⟩ := ih hs'.state ht'.state ho.2
    refine ⟨⟨hadmits, horderly⟩, ?_⟩
    have hhead : (s.step e).observed = (t.step e).observed := by
      unfold Sequencer.Outcome.observed
      rw [hs'.answer, ht'.answer, hs'.calls, ht'.calls, view_eq_of_realizes hs'.state ht'.state]
    rw [Sequencer.observations_cons, Sequencer.observations_cons, hhead, hrest]

/-- Reached states that are alike realize the same ideal one. The length of the program is found from what
remains, so the bytes behind it have no say in it. -/
theorem exists_common_ideal (hs : s.Reached) (ht : t.Reached) (h : s.Alike t) :
    ∃ a, Realizes s a ∧ Realizes t a := by
  obtain ⟨a, ha⟩ := hs.exists_ideal
  obtain ⟨b, hb⟩ := ht.exists_ideal
  -- nothing is assumed of the program's end in `t`: what remains fixes it
  have hend : s.programEnd = t.programEnd := by
    have hremaining := h.remaining
    have hcapacity := h.capacity
    rw [ha.remaining, hb.remaining, Ideal.free, Ideal.free] at hremaining
    rw [ha.capacity, hb.capacity] at hcapacity
    rw [ha.programEnd_eq, hb.programEnd_eq]
    have hfits := a.fits
    have hfits' := b.fits
    omega
  have hprogram : s.program = t.program := by
    unfold Sequencer.program
    rw [h.code, hend]
  have hab := ha.unique hb h.rules h.mode h.appendCursor h.position h.capacity hprogram
  exact ⟨a, ha, hab ▸ hb⟩

/-- **Stale bytes are unobservable.** -/
theorem stale_bytes_unobservable (hs : s.Reached) (ht : t.Reached) (h : s.Alike t)
    {events : List Sequencer.Event} (ho : s.Orderly events) :
    t.Orderly events ∧ s.view = t.view ∧ s.observations events = t.observations events := by
  obtain ⟨a, ha, hb⟩ := exists_common_ideal hs ht h
  obtain ⟨horderly, hobs⟩ := observations_eq_of_realizes ha hb ho
  exact ⟨horderly, view_eq_of_realizes ha hb, hobs⟩

/-- In command entry over an emptied buffer, bytes of two different programs follow the append cursor. -/
theorem stale_programs_unobservable :
    ∃ s t : Sequencer, s.Reached ∧ t.Reached ∧ s.Alike t ∧ s.store.code ≠ t.store.code
      ∧ s.Orderly [.command 2 ⟨1, 2, 3, 4⟩, .command 1 {}, .command 0 {}, .start, .tick]
      ∧ s.observations [.command 2 ⟨1, 2, 3, 4⟩, .command 1 {}, .command 0 {}, .start, .tick]
        = t.observations [.command 2 ⟨1, 2, 3, 4⟩, .command 1 {}, .command 0 {}, .start, .tick] := by
  have hnew := @new_encode
    { leds := 3, capacity := 9, maxSteps := 3, code := encode [.clear, .clear, .delay 7] }
    [.clear, .clear, .delay 7] rfl (by decide)
  have hnew' := @new_encode
    { leds := 3, capacity := 9, maxSteps := 3, code := encode [.all 1 1 1, .all 2 2 2] }
    [.all 1 1 1, .all 2 2 2] rfl (by decide)
  have hs := (Sequencer.Reached.of_new hnew).after
    (by decide : Sequencer.Orderly _ [.command 1 {}, .command 4 {}])
  have ht := (Sequencer.Reached.of_new hnew').after
    (by decide : Sequencer.Orderly _ [.command 1 {}, .command 4 {}])
  refine ⟨_, _, hs, ht, by decide, by decide, by decide, ?_⟩
  exact (stale_bytes_unobservable hs ht (by decide) (by decide)).2.2

end StripSequencer
