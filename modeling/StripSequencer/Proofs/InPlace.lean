import StripSequencer.Sequencer

/-!
# `StripSequencer.Proofs.InPlace` — operations in place check before they write

Operations in place change the state as they go, and a failure hands out what they have made of it by then. Whether a
refused operation leaves a trace is therefore a matter of the order of its statements. All that can be refused asks
its questions first: nothing is written before the last check has passed, and after it nothing can fail.

## Contents
- `Sure`, `Traceless`: operations that cannot fail, and operations that fail before they write; one rule for each way
  of putting them together.
- `Store.InPlace.traceless_append`, `traceless_place`, `traceless_load`: the operations on a store; `append_of_some`,
  `place_of_full`, `load_of_valid` and the like: what they do in each case.
- `Sequencer.InPlace.traceless_handle`, `traceless_load`: commands and loads, with their cases.
- `Sequencer.settle_of_ok`, `settle_of_error`: what they leave of a sequencer.
-/

namespace StripSequencer

/-! ## Checks before writes -/

section Order

variable {ε σ α β : Type} {x : EStateM ε σ α} {f : α → EStateM ε σ β}

/-- The operation does not fail. -/
def Sure (op : EStateM ε σ α) : Prop := ∀ s, ∃ a t, op s = .ok a t

/-- Where the operation fails, nothing was changed. -/
def Traceless (op : EStateM ε σ α) : Prop := ∀ s e t, op s = .error e t → t = s

theorem bind_of_ok {s t : σ} {a : α} (h : x s = .ok a t) : (x >>= f) s = f a t := by
  show EStateM.bind x f s = f a t
  unfold EStateM.bind
  rw [h]

theorem bind_of_error {s t : σ} {e : ε} (h : x s = .error e t) : (x >>= f) s = .error e t := by
  show EStateM.bind x f s = .error e t
  unfold EStateM.bind
  rw [h]

theorem get_bind_run {f : σ → EStateM ε σ α} (s : σ) : (get >>= f) s = f s s := rfl

theorem sure_pure (a : α) : Sure (pure a : EStateM ε σ α) := fun s => ⟨a, s, rfl⟩

theorem sure_modify (g : σ → σ) : Sure (modify g : EStateM ε σ PUnit) := fun s => ⟨(), g s, rfl⟩

theorem Sure.bind (hx : Sure x) (hf : ∀ a, Sure (f a)) : Sure (x >>= f) := by
  intro s
  obtain ⟨a, t, hok⟩ := hx s
  obtain ⟨b, u, hthen⟩ := hf a t
  exact ⟨b, u, (bind_of_ok hok).trans hthen⟩

theorem Sure.traceless (hx : Sure x) : Traceless x := by
  intro s e t herror
  obtain ⟨a, t', hok⟩ := hx s
  rw [hok] at herror
  cases herror

theorem traceless_throw (e : ε) : Traceless (throw e : EStateM ε σ α) := by
  intro s e' t herror
  cases herror
  rfl

/-- To look at the state first changes nothing. -/
theorem traceless_get_bind {f : σ → EStateM ε σ α} (hf : ∀ s, Traceless (f s)) : Traceless (get >>= f) :=
  fun s e t herror => hf s s e t herror

/-- After an operation that may fail, only those may follow that cannot. -/
theorem Traceless.bind (hx : Traceless x) (hf : ∀ a, Sure (f a)) : Traceless (x >>= f) := by
  intro s e t herror
  cases hfirst : x s with
  | ok a u =>
    rw [bind_of_ok hfirst] at herror
    obtain ⟨b, v, hok⟩ := hf a u
    rw [hok] at herror
    cases herror
  | error e' u =>
    rw [bind_of_error hfirst] at herror
    cases herror
    exact hx s e t hfirst

theorem Traceless.ite {c : Prop} [Decidable c] {y : EStateM ε σ α} (hx : Traceless x) (hy : Traceless y) :
    Traceless (if c then x else y) := by
  split
  · exact hx
  · exact hy

theorem outcome_of_ok {s t : σ} {a : α} (h : x s = .ok a t) : outcome x s = .ok t := by
  unfold outcome
  rw [h]

theorem outcome_of_error {s t : σ} {e : ε} (h : x s = .error e t) : outcome x s = .error e := by
  unfold outcome
  rw [h]

end Order

/-! ## Stores -/

/-- Writing inside the buffer does not change its length. -/
theorem length_overwrite {code bytes : List UInt8} {offset : Nat}
    (h : offset + bytes.length ≤ code.length) : (overwrite code offset bytes).length = code.length := by
  unfold overwrite
  rw [List.length_append, List.length_append, List.length_take, List.length_drop]
  omega

namespace Store

namespace InPlace

theorem sure_write {ε : Type} (offset : Nat) (i : Instruction) : Sure (write offset i : EStateM ε Store Unit) :=
  (sure_modify _).bind fun _ => sure_modify _

/-- An append that breaks off has written nothing. -/
theorem traceless_append (offset : Int64) (w : Word) : Traceless (append offset w) := by
  unfold append
  split
  · exact (sure_pure _).traceless
  · next i _ =>
    refine traceless_get_bind fun s => .ite (sure_pure _).traceless (.ite (traceless_throw _) ?_)
    exact ((sure_write _ i).bind fun _ => sure_pure _).traceless

theorem traceless_place (offset : Nat) (i : Instruction) : Traceless (place offset i) :=
  traceless_get_bind fun _ => .ite (traceless_throw _) (sure_write offset i).traceless

/-- **A program is checked to its end before the first byte of it is written.** -/
theorem traceless_load (code : List UInt8) : Traceless (load code) := by
  unfold load
  refine traceless_get_bind fun s => .ite (traceless_throw _) ?_
  split
  · exact traceless_throw _
  · exact ((sure_modify _).bind fun _ => (sure_modify _).bind fun _ => sure_modify _).traceless

end InPlace

/-! ### What operations come to -/

/-- A terminator behind the end of the buffer is not written. -/
theorem getD_terminate (s : Store) (n : Nat) :
    (s.terminate n).getD s = { s with code := s.code.set n terminator } := by
  unfold terminate
  split
  · next hend =>
    have hle : s.code.length ≤ n := by
      have hcapacity : s.capacity = s.code.length := rfl
      omega
    rw [List.set_eq_of_length_le hle]
    rfl
  · rfl

namespace InPlace

variable {s : Store} {offset : Nat} {i : Instruction} {code : List UInt8}

section Append

variable {offset : Int64} {w : Word}

theorem append_of_none (h : w.instruction? = none) :
    append offset w s = .ok (offset, some (.notAnInstruction w.tag)) s := by
  unfold append
  rw [h]
  rfl

/-- The checks of an append in their order, and what each of them leads to. -/
theorem append_of_some (h : w.instruction? = some i) :
    append offset w s
      = if s.remaining < i.size ∨ offset < 0 ∨ (s.capacity : Int) < (offset + Int64.ofNat i.size).toInt then
          .ok (offset, some (.noRoom i.opcode s.remaining)) s
        else if (s.capacity : Int) < offset.toInt then .error ⟨offset, s.capacity⟩ s
        else .ok (offset + Int64.ofNat i.size, none)
          ⟨overwrite s.code offset.toInt.toNat i.encode, s.remaining - i.size⟩ := by
  unfold append
  rw [h]
  refine (get_bind_run s).trans ?_
  split
  · rfl
  · split <;> rfl

theorem append_of_refused (h : w.instruction? = some i)
    (hcheck : s.remaining < i.size ∨ offset < 0 ∨ (s.capacity : Int) < (offset + Int64.ofNat i.size).toInt) :
    append offset w s = .ok (offset, some (.noRoom i.opcode s.remaining)) s := by
  rw [append_of_some h, if_pos hcheck]

variable (hcheck : ¬ (s.remaining < i.size ∨ offset < 0 ∨ (s.capacity : Int) < (offset + Int64.ofNat i.size).toInt))
include hcheck

theorem append_of_outside (h : w.instruction? = some i) (hout : (s.capacity : Int) < offset.toInt) :
    append offset w s = .error ⟨offset, s.capacity⟩ s := by
  rw [append_of_some h, if_neg hcheck, if_pos hout]

theorem append_of_inside (h : w.instruction? = some i) (hin : ¬ (s.capacity : Int) < offset.toInt) :
    append offset w s = .ok (offset + Int64.ofNat i.size, none)
      ⟨overwrite s.code offset.toInt.toNat i.encode, s.remaining - i.size⟩ := by
  rw [append_of_some h, if_neg hcheck, if_neg hin]

end Append

theorem place_of_full (h : s.remaining < i.size ∨ s.capacity < offset + i.size) :
    place offset i s = .error (.noRoom i.opcode s.remaining) s := by
  unfold place
  rw [get_bind_run, if_pos h]
  rfl

theorem place_of_room (h : ¬ (s.remaining < i.size ∨ s.capacity < offset + i.size)) :
    place offset i s = .ok () ⟨overwrite s.code offset i.encode, s.remaining - i.size⟩ := by
  unfold place
  rw [get_bind_run, if_neg h]
  rfl

theorem load_of_long (h : s.capacity < code.length) :
    load code s = .error (.tooLong code.length s.capacity) s := by
  unfold load
  rw [get_bind_run, if_pos h]
  rfl

theorem load_of_flaw {flaw : Program.Flaw} (hlen : code.length ≤ s.capacity)
    (h : Program.validate code = .error flaw) : load code s = .error (.corrupt flaw) s := by
  unfold load
  rw [get_bind_run, if_neg (Nat.not_lt.mpr hlen), h]
  rfl

theorem load_of_valid (hlen : code.length ≤ s.capacity) (h : Program.validate code = .ok ()) :
    load code s
      = .ok () ⟨(overwrite s.code 0 code).set code.length terminator, s.capacity - code.length⟩ := by
  unfold load
  rw [get_bind_run, if_neg (Nat.not_lt.mpr hlen), h]
  -- the three statements, one after the other
  show EStateM.Result.ok ()
    (let t := (terminate ⟨overwrite s.code 0 code, s.remaining⟩ code.length).getD ⟨overwrite s.code 0 code, s.remaining⟩
     (⟨t.code, t.capacity - code.length⟩ : Store)) = _
  rw [getD_terminate]
  have hcapacity : ((overwrite s.code 0 code).set code.length terminator).length = s.capacity := by
    rw [List.length_set, length_overwrite (by rwa [Nat.zero_add])]
    rfl
  show EStateM.Result.ok () (Store.mk _ (((overwrite s.code 0 code).set code.length terminator).length - code.length)) = _
  rw [hcapacity]

end InPlace

end Store

/-! ## Sequencers -/

namespace Sequencer

namespace InPlace

theorem sure_change (f : Sequencer → Sequencer) : Sure (change f) := sure_modify _

theorem sure_perform (f : Sequencer → Sequencer × Array Strip.Call) : Sure (perform f) := sure_modify _

/-- What leaves no trace in the store leaves none in the sequencer. -/
theorem traceless_onStore {α : Type} {op : EStateM Refusal Store α} (h : Traceless op) :
    Traceless (onStore op) := by
  intro w why t herror
  unfold onStore at herror
  cases hop : op w.state.store with
  | ok a store =>
    rw [hop] at herror
    cases herror
  | error cause store =>
    rw [hop] at herror
    cases herror
    rw [h _ _ _ hop]

theorem traceless_run : Traceless run :=
  traceless_get_bind fun _ => .ite (sure_pure _).traceless (.ite (traceless_throw _) (sure_change _).traceless)

theorem traceless_handleStructural (b : UInt8) : Traceless (handleStructural b) := by
  unfold handleStructural
  split
  · exact traceless_throw _
  · exact (sure_perform _).traceless
  · exact traceless_run
  · exact (sure_change _).traceless
  · exact (sure_perform _).traceless

theorem traceless_append (i : Instruction) : Traceless (append i) :=
  traceless_get_bind fun _ =>
    (traceless_onStore (Store.InPlace.traceless_place _ i)).bind fun _ => sure_change _

theorem traceless_handleEntry (b : UInt8) (payload : Payload) : Traceless (handleEntry b payload) := by
  unfold handleEntry
  refine .ite (sure_change _).traceless ?_
  split
  · exact traceless_throw _
  · refine traceless_get_bind fun w => ?_
    split
    · exact traceless_throw _
    · exact traceless_append _

/-- **A refused command leaves the sequencer as it was, and makes no call.** -/
theorem traceless_handle (b : UInt8) (payload : Payload) : Traceless (handle b payload) :=
  traceless_get_bind fun _ => .ite (traceless_handleEntry b payload) (traceless_handleStructural b)

/-- **A refused load leaves the sequencer as it was, and makes no call.** -/
theorem traceless_load (code : List UInt8) : Traceless (load code) := by
  refine traceless_get_bind fun w => .ite ?_ (traceless_throw _)
  exact (traceless_onStore (Store.InPlace.traceless_load code)).bind fun _ =>
    (sure_change _).bind fun _ => (sure_change _).bind fun _ => sure_change _

end InPlace

/-! ### What operations come to -/

namespace InPlace

variable {w : Work} {b : UInt8} {payload : Payload} {i : Instruction} {code : List UInt8} {why : Refusal} {store : Store}

theorem onStore_of_ok {α : Type} {op : EStateM Refusal Store α} {a : α} (h : op w.state.store = .ok a store) :
    onStore op w = .ok a { w with state := { w.state with store } } := by
  unfold onStore
  rw [h]

theorem onStore_of_error {α : Type} {op : EStateM Refusal Store α} (hop : Traceless op)
    (h : op w.state.store = .error why store) : onStore op w = .error why w := by
  unfold onStore
  rw [h, hop _ _ _ h]

theorem run_of_running (h : w.state.mode = .running) : run w = .ok () w := by
  unfold run
  rw [get_bind_run, if_pos h]
  rfl

theorem run_of_empty (h : w.state.mode ≠ .running) (hempty : w.state.store.isEmpty = true) :
    run w = .error .nothingToRun w := by
  unfold run
  rw [get_bind_run, if_neg h, if_pos hempty]
  rfl

theorem run_of_program (h : w.state.mode ≠ .running) (hfull : ¬ w.state.store.isEmpty = true) :
    run w = .ok () { w with state := { w.state with mode := .running } } := by
  unfold run
  rw [get_bind_run, if_neg h, if_neg hfull]
  rfl

theorem append_of_ok (h : Store.InPlace.place w.state.appendCursor i w.state.store = .ok () store) :
    append i w
      = .ok () { w with state := { w.state with store, appendCursor := w.state.appendCursor + i.size } } := by
  unfold append
  rw [get_bind_run, bind_of_ok (onStore_of_ok h)]
  rfl

theorem append_of_error (h : Store.InPlace.place w.state.appendCursor i w.state.store = .error why store) :
    append i w = .error why w := by
  unfold append
  rw [get_bind_run, bind_of_error (onStore_of_error (Store.InPlace.traceless_place _ i) h)]

theorem handle_of_outside (h : w.state.mode ≠ .commandEntry) : handle b payload w = handleStructural b w := by
  unfold handle
  rw [get_bind_run, if_neg h]

theorem handle_of_entry (h : w.state.mode = .commandEntry) : handle b payload w = handleEntry b payload w := by
  unfold handle
  rw [get_bind_run, if_pos h]

theorem load_of_busy (h : w.state.mode ≠ .paused) : load code w = .error (.notPaused w.state.mode) w := by
  unfold load
  rw [get_bind_run, if_neg h]
  rfl

theorem load_of_ok (hm : w.state.mode = .paused) (h : Store.InPlace.load code w.state.store = .ok () store) :
    load code w = .ok () { w with state := { w.state with store, appendCursor := 0, position := ⟨0, 0⟩ } } := by
  unfold load
  rw [get_bind_run, if_pos hm, bind_of_ok (onStore_of_ok h)]
  rfl

theorem load_of_error (hm : w.state.mode = .paused)
    (h : Store.InPlace.load code w.state.store = .error why store) : load code w = .error why w := by
  unfold load
  rw [get_bind_run, if_pos hm, bind_of_error (onStore_of_error (Store.InPlace.traceless_load code) h)]

end InPlace

variable {s : Sequencer} {op : EStateM Refusal Work Unit} {why : Refusal} {w : Work}

theorem settle_of_ok (h : op ⟨s, #[]⟩ = .ok () w) : settle op s = ⟨w.state, .done, w.calls⟩ := by
  unfold settle
  rw [h]

/-- What is refused without a trace leaves the sequencer that was there. -/
theorem settle_of_error (hop : Traceless op) (h : op ⟨s, #[]⟩ = .error why w) :
    settle op s = ⟨s, .refused why, #[]⟩ := by
  unfold settle
  rw [h, hop _ _ _ h]

/-- An operation in place is done or refused. -/
theorem answer_settle (op : EStateM Refusal Work Unit) (s : Sequencer) :
    (settle op s).answer = .done ∨ ∃ why, (settle op s).answer = .refused why := by
  unfold settle
  split
  · exact .inl rfl
  · exact .inr ⟨_, rfl⟩

theorem settle_of_refused (hop : Traceless op) (h : (settle op s).answer = .refused why) :
    settle op s = ⟨s, .refused why, #[]⟩ := by
  cases hrun : op ⟨s, #[]⟩ with
  | ok a w =>
    rw [settle_of_ok hrun] at h
    cases h
  | error cause w =>
    rw [settle_of_error hop hrun] at h ⊢
    cases h
    rfl

end Sequencer

end StripSequencer
