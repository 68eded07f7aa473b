import StripSequencer.Proofs.ImageRoundTrip
import StripSequencer.Proofs.SendSession

/-!
# `StripSequencer.Proofs.LoadRequest` — what a request to load an image comes to

The bytes of an image pass three checks on their way into a buffer: the image is checked by itself, against the
capacity that it records; the sequencer has to be paused; and the buffer has to be long enough. The code is checked
twice, once with the image and once on its way into the buffer. A load that is refused leaves no trace
(`Sequencer.InPlace.traceless_load`), so a request changes everything that it asks for or nothing at all, and since both
checks of the code accept the same code, no client is ever told that a program is corrupt.

## Contents
- `Sequencer.Loading`: the status of a load, and what the load leaves.
- `Transition.loading`: one load of code that was checked with its image.
- `Service.load_of_rejected`, `Service.load_of_stopped`, `Service.load_of_serving`: what the service makes of it.
- `Service.load_request_atomic`.
-/

namespace StripSequencer

open Program

namespace Sequencer

/-- The program of `img` is offered to `s`, which answers with `status` and is `t` afterwards. -/
structure Loading (s : Sequencer) (img : Image) (t : Sequencer) (status : String) : Prop where
  busy_iff : status = "program is running" ↔ s.mode ≠ .paused
  exceeded_iff : status = "capacity exceeded" ↔ s.mode = .paused ∧ s.store.capacity < img.program.length
  ok_iff : status = "ok" ↔ s.mode = .paused ∧ img.program.length ≤ s.store.capacity
  /-- There is no other status; in particular the program is not corrupt. -/
  listed : status ∈ ["program is running", "capacity exceeded", "ok"]
  not_corrupt : status ≠ "corrupt program"
  /-- Without the status `ok` nothing changes. -/
  kept : status ≠ "ok" → t = s
  /-- The capacity that the image records has no say in what is loaded. -/
  program : status = "ok" → t.program = img.program
  snapshot : status = "ok" → t.snapshot =
    { mode := .paused
      capacity := s.store.capacity
      remaining := s.store.capacity - img.program.length
      length := img.program.length
      appendCursor := 0
      playCursor := 0
      delay := 0 }
  rules : t.rules = s.rules

variable {s : Sequencer}

/-- A program that was loaded is all that can be seen, whatever the buffer was before. -/
theorem snapshot_replaced (hm : s.mode = .paused) {p : List Instruction} (hle : size p ≤ s.store.capacity) :
    (s.replaced (encode p)).snapshot
      = ⟨.paused, s.store.capacity, s.store.capacity - size p, size p, 0, 0, 0⟩ := by
  have hmode : s.mode ≠ .commandEntry := by
    rw [hm]
    decide
  have hend : (s.replaced (encode p)).programEnd = size p := (Holds.replaced hmode).programEnd_eq
  have hcapacity : (s.replaced (encode p)).store.capacity = s.store.capacity :=
    ((Transition.load hm hle (validate_encode p)).setup_kept).2
  have hpaused : (s.replaced (encode p)).mode = .paused := hm
  unfold Sequencer.snapshot
  rw [hend, hcapacity, hpaused]
  rfl

/-- **One load.** The rules of a load, for code that was checked with its image: the rule for corrupt code
does not apply. -/
theorem Transition.loading {img : Image} {o : Outcome} (hcode : validate img.program = .ok ())
    (ht : Transition s (.load img.program) o) : s.Loading img o.state o.answer.status := by
  cases ht with
  | busy hm =>
    have hstatus : (s.refuse (.notPaused s.mode)).answer.status = "program is running" := rfl
    rw [hstatus]
    constructor <;> simp [hm, refuse]
  | tooLong hm hlen =>
    have hstatus : (s.refuse (.tooLong img.program.length s.store.capacity)).answer.status
        = "capacity exceeded" := rfl
    have hle : ¬ img.program.length ≤ s.store.capacity := Nat.not_le.mpr hlen
    rw [hstatus]
    constructor <;> simp [hm, hlen, hle, refuse]
  | corrupt _ _ hflaw =>
    rw [hcode] at hflaw
    cases hflaw
  | load hm hlen _ =>
    obtain ⟨p, hp⟩ := exists_encode_of_validate hcode
    have hlt : ¬ s.store.capacity < img.program.length := Nat.not_lt.mpr hlen
    have hmode : s.mode ≠ .commandEntry := by
      rw [hm]
      decide
    have hstatus : (Answer.done).status = "ok" := rfl
    rw [hstatus]
    constructor
    case program =>
      intro _
      rw [hp]
      exact (Holds.replaced hmode).program_eq
    case snapshot =>
      intro _
      rw [hp] at hlen ⊢
      exact snapshot_replaced hm hlen
    case rules => rfl
    all_goals simp [hm, hlen, hlt]

end Sequencer

namespace Service

/-- The service with another sequencer in its worker. -/
def holding (service : Service) (s : Sequencer) : Service :=
  { service with worker := { service.worker with sequencer := s } }

/-- The task of a load is a step of the sequencer. -/
theorem loadTask_eq (code : List UInt8) (s : Sequencer) :
    loadTask code s
      = { state := (s.step (.load code)).state
          calls := (s.step (.load code)).calls
          value := .ok (s.step (.load code)).answer.status } := by
  have hstep : s.step (.load code) = Sequencer.settle (Sequencer.InPlace.load code) s := rfl
  rw [hstep]
  unfold loadTask Sequencer.settle
  cases Sequencer.InPlace.load code ⟨s, #[]⟩ with
  | ok _ w => rfl
  | error why w => rfl

variable {service : Service} {data : List UInt8}

/-- Bytes that are no image do not come to the worker. -/
theorem load_of_rejected {e : Image.Error} (h : Image.decode data = .error e) :
    service.load data = ⟨service, #[], .error (.image e)⟩ := by
  unfold load
  rw [h]

theorem load_of_stopped {img : Image} (h : Image.decode data = .ok img)
    (hstopped : service.worker.stopped = true) :
    service.load data = ⟨service, #[], .error (.worker .stopped)⟩ := by
  unfold load perform Worker.perform
  rw [h]
  dsimp only
  rw [if_pos hstopped]
  rfl

/-- A worker that serves takes one step of its sequencer, and the journal is not written. -/
theorem load_of_serving {img : Image} (h : Image.decode data = .ok img)
    (hserving : service.worker.stopped = false) :
    service.load data
      = ⟨service.holding (service.worker.sequencer.step (.load img.program)).state, #[],
          .ok (service.worker.sequencer.step (.load img.program)).answer.status⟩ := by
  unfold load perform
  rw [h]
  dsimp only
  rw [Worker.perform_of_serving hserving, loadTask_eq, Sequencer.calls_load]
  rfl

/-- **A request to load an image is atomic, and what it comes to is exact.** For all bytes and every state of the
sequencer: bytes that are no image are an invalid argument, and the service is left as it is. An image is answered
with one of three statuses, by the mode and the size of the buffer alone, and its program is loaded or nothing is
changed. Only a worker that was stopped gives no status; it changes nothing either. -/
theorem load_request_atomic (service : Service) (data : List UInt8) :
    (∃ e, Image.decode data = .error e ∧ service.load data = ⟨service, #[], .error (.image e)⟩
        ∧ (Error.image e).code = .invalidArgument)
      ∨ (∃ img t status, Image.decode data = .ok img ∧ service.worker.stopped = false
        ∧ service.load data = ⟨service.holding t, #[], .ok status⟩
        ∧ service.worker.sequencer.Loading img t status)
      ∨ (∃ img, Image.decode data = .ok img ∧ service.worker.stopped = true
        ∧ service.load data = ⟨service, #[], .error (.worker .stopped)⟩) := by
  cases hdecode : Image.decode data with
  | error e => exact .inl ⟨e, rfl, load_of_rejected hdecode, rfl⟩
  | ok img =>
    cases hstopped : service.worker.stopped with
    | true => exact .inr (.inr ⟨img, rfl, rfl, load_of_stopped hdecode hstopped⟩)
    | false =>
      -- the image passed its own check, so its code passes that of the buffer
      obtain ⟨-, -, -, hcode⟩ := Image.validate_eq_ok_iff.mp (Image.validate_of_decode hdecode)
      refine .inr (.inl ⟨img, _, _, rfl, rfl, load_of_serving hdecode hstopped, ?_⟩)
      exact (service.worker.sequencer.step_transition _).loading hcode

end Service

end StripSequencer
