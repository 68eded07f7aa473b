import StripSequencer.Proofs.Grammar
import StripSequencer.Proofs.Refusals

/-!
# `StripSequencer.Proofs.AppendBounds` — an append writes a whole instruction or nothing, with one exception

An append is offered any word at any signed offset of 64 bits. It checks the opcode first, then the room that remains
and the place in the buffer. The end of the instruction is computed in the arithmetic of offsets, which wraps, so an
offset close to the end of the signed range passes the check although it lies outside every buffer, and the write that
follows fails. Everywhere else the check decides over the integers, and an append that passes it writes exactly the
bytes of the instruction.

## Contents
- `Store.Addressable`, `Store.Exceeds`, `Store.Wraps`: the limits of an append, over the integers.
- `getElem?_overwrite`, `drop_overwrite`: what writing over a buffer leaves in it.
- `InPlace.append_of_wraps`, `append_of_exceeds`, `append_of_room`: what an append of an instruction can do.
- `Store.Wrote`, `Store.AppendExact`, `append_all_or_nothing`.
- `InPlace.append_ofNat`, `Sequencer.Reachable.append_cases`: inside the buffer an append places an instruction, and
  that is how sequencers append.
-/

namespace StripSequencer

/-! ## Writing over a buffer -/

section Overwrite

variable {code bytes : List UInt8} {offset : Nat}

/-- From the offset on, the bytes that were written come first. -/
theorem drop_overwrite (h : offset + bytes.length ≤ code.length) :
    (overwrite code offset bytes).drop offset = bytes ++ code.drop (offset + bytes.length) := by
  have htake : (code.take offset).length = offset := List.length_take_of_le (by omega)
  unfold overwrite
  rw [List.append_assoc]
  exact List.drop_left' htake

/-- **What is not written stays.** A byte of the buffer is one of those that were written, or it is what it was. -/
theorem getElem?_overwrite (h : offset + bytes.length ≤ code.length) (k : Nat) :
    (overwrite code offset bytes)[k]?
      = if offset ≤ k ∧ k < offset + bytes.length then bytes[k - offset]? else code[k]? := by
  have htake : (code.take offset).length = offset := List.length_take_of_le (by omega)
  unfold overwrite
  rw [List.append_assoc]
  by_cases hbefore : k < offset
  · rw [if_neg (by omega), List.getElem?_append_left (by omega), List.getElem?_take_of_lt hbefore]
  · rw [List.getElem?_append_right (by omega), htake]
    by_cases hinside : k < offset + bytes.length
    · rw [if_pos (by omega), List.getElem?_append_left (by omega)]
    · -- behind the bytes that were written, the buffer goes on where they end
      rw [if_neg (by omega), List.getElem?_append_right (by omega), List.getElem?_drop]
      congr 1
      omega

end Overwrite

/-- No instruction has more than five bytes. -/
theorem Instruction.size_le (i : Instruction) : i.size ≤ 5 := by
  unfold size
  cases i.opcode <;> decide

namespace Word

variable {w : Word}

theorem instruction?_eq_none_iff : w.instruction? = none ↔ ∀ op : Opcode, w.tag ≠ op.code := by
  unfold instruction?
  rw [Option.map_eq_none_iff]
  constructor
  · rintro h op htag
    rw [htag, Opcode.ofByte?_code] at h
    cases h
  · intro h
    cases hop : Opcode.ofByte? w.tag with
    | none => rfl
    | some op => exact absurd (Opcode.code_of_ofByte? hop).symm (h op)

/-- The byte of an instruction's word is that of its opcode. -/
theorem tag_eq_code_iff {i : Instruction} {op : Opcode} (h : w.instruction? = some i) :
    w.tag = op.code ↔ op = i.opcode := by
  obtain ⟨found, hfound, rfl⟩ := Option.map_eq_some_iff.mp h
  rw [Instruction.opcode_ofPayload, ← Opcode.code_of_ofByte? hfound, Opcode.code_inj]
  exact eq_comm

end Word

namespace Store

/-! ## Limits -/

/-- Between the end of the buffer and the end of the signed range there is room for the longest instruction. Buffers
in memory are shorter than that by far. -/
def Addressable (s : Store) : Prop := (s.capacity : Int) + 5 ≤ Int64.maxValue.toInt

/-- Over the integers, `n` bytes at `offset` are more than what remains, or do not lie in the buffer. -/
def Exceeds (s : Store) (offset : Int64) (n : Nat) : Prop :=
  s.remaining < n ∨ offset.toInt < 0 ∨ (s.capacity : Int) < offset.toInt + n

/-- There remain `n` bytes, but `n` bytes at `offset` end outside the signed range. -/
def Wraps (s : Store) (offset : Int64) (n : Nat) : Prop :=
  n ≤ s.remaining ∧ Int64.maxValue.toInt < offset.toInt + n

instance (s : Store) : Decidable s.Addressable :=
  inferInstanceAs (Decidable ((s.capacity : Int) + 5 ≤ Int64.maxValue.toInt))

instance (s : Store) (offset : Int64) (n : Nat) : Decidable (s.Exceeds offset n) :=
  inferInstanceAs (Decidable (s.remaining < n ∨ offset.toInt < 0 ∨ (s.capacity : Int) < offset.toInt + n))

instance (s : Store) (offset : Int64) (n : Nat) : Decidable (s.Wraps offset n) :=
  inferInstanceAs (Decidable (n ≤ s.remaining ∧ Int64.maxValue.toInt < offset.toInt + n))

/-- The end of an instruction as it is computed: the sum, or what is left of it after it has wrapped. -/
theorem toInt_end (offset : Int64) (i : Instruction) :
    (offset + Int64.ofNat i.size).toInt
      = if offset.toInt + i.size ≤ Int64.maxValue.toInt then offset.toInt + i.size
        else offset.toInt + i.size - UInt64.size := by
  have hsmall := i.size_le
  have hsize : (Int64.ofNat i.size).toInt = i.size := Int64.toInt_ofNat_of_lt (by omega)
  have hhigh := offset.toInt_le
  have hlow := offset.le_toInt
  have hmax : Int64.maxValue.toInt = 9223372036854775807 := rfl
  have hwords : UInt64.size = 18446744073709551616 := rfl
  rw [Int64.toInt_add, hsize, Int.bmod_def]
  omega

variable {s : Store} {offset : Int64} {w : Word} {i : Instruction}

theorem toInt_end_of_room (hs : s.Addressable) (he : ¬ s.Exceeds offset i.size) :
    (offset + Int64.ofNat i.size).toInt = offset.toInt + i.size := by
  unfold Addressable at hs
  unfold Exceeds at he
  rw [toInt_end, if_pos (by omega)]

/-- Whatever ends outside the signed range ends outside the buffer. -/
theorem Wraps.exceeds {n : Nat} (hs : s.Addressable) (h : s.Wraps offset n) : s.Exceeds offset n := by
  have hend := h.2
  unfold Addressable at hs
  exact .inr (.inr (by omega))

/-! ## The four things that an append can do -/

namespace InPlace

/-- The end has become negative, so it exceeds no limit; the offset itself lies outside the buffer. -/
theorem append_of_wraps (hs : s.Addressable) (h : w.instruction? = some i) (hw : s.Wraps offset i.size) :
    append offset w s = .error ⟨offset, s.capacity⟩ s := by
  obtain ⟨hroom, hwraps⟩ := hw
  have hend := toInt_end offset i
  rw [if_neg (Int.not_le.mpr hwraps)] at hend
  have hsmall := i.size_le
  have hhigh := offset.toInt_le
  have hmax : Int64.maxValue.toInt = 9223372036854775807 := rfl
  have hwords : UInt64.size = 18446744073709551616 := rfl
  unfold Addressable at hs
  have hpassed : ¬ (s.remaining < i.size ∨ offset < 0
      ∨ (s.capacity : Int) < (offset + Int64.ofNat i.size).toInt) := by
    rw [hend, Int64.lt_iff_toInt_lt, Int64.toInt_zero]
    omega
  exact append_of_outside hpassed h (by omega)

/-- Where nothing wraps, the limits are checked over the integers. -/
theorem append_of_exceeds (h : w.instruction? = some i) (he : s.Exceeds offset i.size)
    (hw : ¬ s.Wraps offset i.size) :
    append offset w s = .ok (offset, some (.noRoom i.opcode s.remaining)) s := by
  have hend := toInt_end offset i
  refine append_of_refused h ?_
  rw [hend, Int64.lt_iff_toInt_lt, Int64.toInt_zero]
  unfold Exceeds at he
  unfold Wraps at hw
  split <;> omega

theorem append_of_room (hs : s.Addressable) (h : w.instruction? = some i) (he : ¬ s.Exceeds offset i.size) :
    append offset w s = .ok (offset + Int64.ofNat i.size, none)
      ⟨overwrite s.code offset.toInt.toNat i.encode, s.remaining - i.size⟩ := by
  have hend := toInt_end_of_room hs he
  unfold Exceeds at he
  have hpassed : ¬ (s.remaining < i.size ∨ offset < 0
      ∨ (s.capacity : Int) < (offset + Int64.ofNat i.size).toInt) := by
    rw [hend, Int64.lt_iff_toInt_lt, Int64.toInt_zero]
    omega
  exact append_of_inside hpassed h (by omega)

end InPlace

/-! ## Outcomes -/

/-- The instruction `i` was written at `offset` and ends at `next`; nothing else of `s` is changed in `t`. -/
structure Wrote (s : Store) (offset : Int64) (i : Instruction) (next : Int64) (t : Store) : Prop where
  next : next.toInt = offset.toInt + i.size
  remaining : t.remaining + i.size = s.remaining
  capacity : t.capacity = s.capacity
  bytes : ∀ k : Nat, t.code[k]?
    = if offset.toInt ≤ k ∧ k < offset.toInt + i.size then i.encode[k - offset.toInt.toNat]? else s.code[k]?
  /-- The instruction is decoded where it was written. -/
  read_back : t.wordAt offset.toInt = (Word.ofInstruction i, i.size)

/-- An instruction that exceeds no limit is written where it was to go. -/
theorem wrote_of_room (hs : s.Addressable) (he : ¬ s.Exceeds offset i.size) :
    s.Wrote offset i (offset + Int64.ofNat i.size)
      ⟨overwrite s.code offset.toInt.toNat i.encode, s.remaining - i.size⟩ := by
  have hend := toInt_end_of_room hs he
  unfold Exceeds at he
  have hpos : (offset.toInt.toNat : Int) = offset.toInt := Int.toNat_of_nonneg (by omega)
  have hfits : offset.toInt.toNat + i.encode.length ≤ s.code.length := by
    show _ ≤ s.capacity
    rw [Instruction.length_encode]
    omega
  constructor
  case next => exact hend
  case remaining => exact Nat.sub_add_cancel (by omega)
  case capacity => exact length_overwrite hfits
  case bytes =>
    intro k
    show (overwrite s.code offset.toInt.toNat i.encode)[k]? = _
    have hwindow : (offset.toInt.toNat ≤ k ∧ k < offset.toInt.toNat + i.size)
        ↔ (offset.toInt ≤ k ∧ (k : Int) < offset.toInt + i.size) := by omega
    rw [getElem?_overwrite hfits, Instruction.length_encode]
    simp only [hwindow]
  case read_back =>
    have hread : Instruction.read? ((overwrite s.code offset.toInt.toNat i.encode).drop offset.toInt.toNat)
        = some (i, s.code.drop (offset.toInt.toNat + i.encode.length)) := by
      rw [drop_overwrite hfits]
      exact Instruction.read?_encode_append i _
    show Word.readAt (overwrite s.code offset.toInt.toNat i.encode) offset.toInt = _
    rw [← hpos, Int.toNat_natCast]
    exact Word.readAt_of_read? hread

/-- An append of `w` at `offset` is refused for a cause. -/
def RefusesAppend (s : Store) (offset : Int64) (w : Word) (cause : Cause) : Prop :=
  ∃ next why t, InPlace.append offset w s = .ok (next, some why) t ∧ why.cause = cause

/-- What an append of `w` at `offset` comes to, in full: the values that it gives, and the store as it stands where
the append ends. -/
structure AppendExact (s : Store) (offset : Int64) (w : Word) : Prop where
  /-- The write fails exactly if the end of the instruction wraps. -/
  fails_iff : (∃ fault t, InPlace.append offset w s = .error fault t)
    ↔ ∃ op : Opcode, w.tag = op.code ∧ s.Wraps offset op.size
  /-- Nothing was written before a failure, and the failure tells the offset and the size of the buffer. -/
  failed : ∀ fault t, InPlace.append offset w s = .error fault t → fault = ⟨offset, s.capacity⟩ ∧ t = s
  invalid_iff : s.RefusesAppend offset w .invalidOpcode ↔ ∀ op : Opcode, w.tag ≠ op.code
  exceeded_iff : s.RefusesAppend offset w .capacityExceeded
    ↔ ∃ op : Opcode, w.tag = op.code ∧ s.Exceeds offset op.size ∧ ¬ s.Wraps offset op.size
  causes : ∀ cause, s.RefusesAppend offset w cause → cause = .invalidOpcode ∨ cause = .capacityExceeded
  /-- A refusal gives the offset back, and leaves the buffer and what remains as they are. -/
  refused : ∀ next why t, InPlace.append offset w s = .ok (next, some why) t → next = offset ∧ t = s
  written_iff : (∃ next t, InPlace.append offset w s = .ok (next, none) t)
    ↔ ∃ op : Opcode, w.tag = op.code ∧ ¬ s.Exceeds offset op.size
  /-- What was written is the instruction of the word, without the operands that it does not use. -/
  written : ∀ next t, InPlace.append offset w s = .ok (next, none) t →
    ∃ i, w.instruction? = some i ∧ w.trimmed = .ofInstruction i ∧ s.Wrote offset i next t

theorem refusesAppend_iff {next : Int64} {why : Refusal} {t : Store}
    (h : InPlace.append offset w s = .ok (next, some why) t) (cause : Cause) :
    s.RefusesAppend offset w cause ↔ why.cause = cause := by
  constructor
  · rintro ⟨next', why', t', h', hcause⟩
    rw [h] at h'
    cases h'
    exact hcause
  · exact fun hcause => ⟨next, why, t, h, hcause⟩

/-- A word that is no instruction. -/
theorem appendExact_of_none (h : w.instruction? = none) : s.AppendExact offset w := by
  have hout : InPlace.append offset w s = .ok (offset, some (.notAnInstruction w.tag)) s := InPlace.append_of_none h
  have htag : ∀ op : Opcode, w.tag ≠ op.code := Word.instruction?_eq_none_iff.mp h
  constructor <;> simp [refusesAppend_iff hout, hout, htag, Refusal.cause]

/-- A word that is an instruction: its end wraps, it exceeds a limit, or it is written. -/
theorem appendExact_of_some (hs : s.Addressable) (h : w.instruction? = some i) : s.AppendExact offset w := by
  have htag : ∀ op : Opcode, w.tag = op.code ↔ op = i.opcode := fun op => Word.tag_eq_code_iff h
  have hsize : i.opcode.size = i.size := rfl
  by_cases hwraps : s.Wraps offset i.size
  · have hout := InPlace.append_of_wraps hs h hwraps
    have hexceeds : s.Exceeds offset i.size := hwraps.exceeds hs
    constructor <;> simp [RefusesAppend, hout, htag, hsize, hwraps, hexceeds]
  · by_cases hexceeds : s.Exceeds offset i.size
    · have hout := InPlace.append_of_exceeds h hexceeds hwraps
      constructor <;> simp [refusesAppend_iff hout, hout, htag, hsize, hwraps, hexceeds, Refusal.cause]
    · obtain ⟨next, t, hout, hwrote⟩ :
          ∃ next t, InPlace.append offset w s = .ok (next, none) t ∧ s.Wrote offset i next t :=
        ⟨_, _, InPlace.append_of_room hs h hexceeds, wrote_of_room hs hexceeds⟩
      constructor <;> simp [RefusesAppend, hout, htag, hsize, hwraps, hexceeds, h, Word.trimmed_eq h, hwrote]

/-! ## Appends at the end of a program

A sequencer appends at a cursor inside the buffer, where nothing wraps. There the append at a signed offset and the
one at a natural number are one operation. -/

/-- **Inside the buffer, an append at a signed offset places the instruction or is refused, and never fails.** -/
theorem InPlace.append_ofNat (hs : s.Addressable) {offset : Nat} (hin : offset ≤ s.capacity) (i : Instruction) :
    append (Int64.ofNat offset) (Word.ofInstruction i) s
      = match place offset i s with
        | .ok _ t => .ok (Int64.ofNat (offset + i.size), none) t
        | .error why t => .ok (Int64.ofNat offset, some why) t := by
  have hword := Word.instruction?_ofInstruction i
  have hsmall := i.size_le
  have hmax : Int64.maxValue.toInt = 9223372036854775807 := rfl
  have hbound := hs
  unfold Addressable at hbound
  have hoffset : (Int64.ofNat offset).toInt = offset := Int64.toInt_ofNat_of_lt (by omega)
  have hwraps : ¬ s.Wraps (Int64.ofNat offset) i.size := by
    unfold Wraps
    rw [hoffset]
    omega
  have hexceeds : s.Exceeds (Int64.ofNat offset) i.size ↔ s.remaining < i.size ∨ s.capacity < offset + i.size := by
    unfold Exceeds
    rw [hoffset]
    omega
  by_cases hfull : s.remaining < i.size ∨ s.capacity < offset + i.size
  · rw [append_of_exceeds hword (hexceeds.mpr hfull) hwraps, place_of_full hfull]
  · rw [append_of_room hs hword (mt hexceeds.mp hfull), place_of_room hfull, hoffset, Int.toNat_natCast, Int64.ofNat_add]

end Store

namespace Sequencer

/-- In command entry the append cursor lies in the buffer. -/
theorem Reachable.appendCursor_le {s : Sequencer} (h : Reachable s) (hm : s.mode = .commandEntry) :
    s.appendCursor ≤ s.store.capacity := by
  obtain ⟨p, hp⟩ := h.exists_program
  obtain ⟨rest, hcode, -⟩ := hp.layout
  rw [hp.aligned hm, Store.capacity_layout hcode]
  exact Nat.le_add_right _ _

/-- **A sequencer appends as the store does.** In every reachable state of command entry, what a sequencer makes of an
instruction is what an append at its cursor makes of it; the append does not fail. -/
theorem Reachable.append_cases {s : Sequencer} (h : Reachable s) (hm : s.mode = .commandEntry)
    (hs : s.store.Addressable) (i : Instruction) (calls : Array Strip.Call) :
    (∃ store, Store.InPlace.append (Int64.ofNat s.appendCursor) (Word.ofInstruction i) s.store
          = .ok (Int64.ofNat (s.appendCursor + i.size), none) store
        ∧ InPlace.append i ⟨s, calls⟩
          = .ok () ⟨{ s with store, appendCursor := s.appendCursor + i.size }, calls⟩)
      ∨ ∃ why store, Store.InPlace.append (Int64.ofNat s.appendCursor) (Word.ofInstruction i) s.store
          = .ok (Int64.ofNat s.appendCursor, some why) store
        ∧ InPlace.append i ⟨s, calls⟩ = .error why ⟨{ s with store }, calls⟩ := by
  have happend := Store.InPlace.append_ofNat hs (h.appendCursor_le hm) i
  cases hplace : Store.InPlace.place s.appendCursor i s.store with
  | ok _ store =>
    rw [hplace] at happend
    exact .inl ⟨store, happend, InPlace.append_of_ok hplace⟩
  | error why store =>
    rw [hplace] at happend
    obtain rfl := Store.InPlace.traceless_place _ i _ _ _ hplace
    exact .inr ⟨why, s.store, happend, InPlace.append_of_error hplace⟩

end Sequencer

/-- **An append writes a whole instruction or nothing, with one exception.** For every buffer, every offset and every
word: the byte decides first, then the limits over the integers; a refusal changes nothing; and what is written is
the instruction and no other byte. The exception are offsets at which the end of the instruction wraps: there the
write fails, although a limit is exceeded. -/
theorem append_all_or_nothing {s : Store} (hs : s.Addressable) (offset : Int64) (w : Word) :
    s.AppendExact offset w := by
  cases h : w.instruction? with
  | none => exact Store.appendExact_of_none h
  | some i => exact Store.appendExact_of_some hs h

/-- A delay with a stray operand fits to the last byte, over bytes of an earlier program and with two bytes left; one
byte further on it is refused. -/
theorem append_fits_to_last_byte :
    (⟨[9, 8, 7, 6], 2⟩ : Store).Addressable
      ∧ (∃ next t, Store.InPlace.append 2 ⟨3, ⟨5, 1, 1, 1⟩⟩ ⟨[9, 8, 7, 6], 2⟩ = .ok (next, none) t
        ∧ next.toInt = 4 ∧ t = ⟨[9, 8, 3, 5], 0⟩ ∧ t.wordAt 2 = (⟨3, ⟨5, 0, 0, 0⟩⟩, 2))
      ∧ (⟨[9, 8, 7, 6], 2⟩ : Store).RefusesAppend 3 ⟨3, ⟨5, 1, 1, 1⟩⟩ .capacityExceeded := by
  have hs : (⟨[9, 8, 7, 6], 2⟩ : Store).Addressable := by decide
  have hinside := append_all_or_nothing hs 2 ⟨3, ⟨5, 1, 1, 1⟩⟩
  have hbeyond := append_all_or_nothing hs 3 ⟨3, ⟨5, 1, 1, 1⟩⟩
  refine ⟨hs, ?_, ?_⟩
  · obtain ⟨next, t, hout⟩ := hinside.written_iff.mpr ⟨.delay, rfl, by decide⟩
    obtain ⟨i, hi, -, hwrote⟩ := hinside.written next t hout
    obtain rfl : Instruction.delay 5 = i := Option.some.inj hi
    exact ⟨next, t, hout, hwrote.next, by cases hout; decide, hwrote.read_back⟩
  · exact hbeyond.exceeded_iff.mpr ⟨.delay, rfl, by decide, by decide⟩

/-- At the last offset of the signed range a blanking instruction exceeds the buffer, and is not refused: the append
breaks off. -/
theorem append_fails_at_last_offset :
    (Store.empty 5).Exceeds Int64.maxValue Opcode.clear.size
      ∧ ¬ (Store.empty 5).RefusesAppend Int64.maxValue ⟨Opcode.clear.code, {}⟩ .capacityExceeded
      ∧ ∃ fault, Store.InPlace.append Int64.maxValue ⟨Opcode.clear.code, {}⟩ (Store.empty 5)
          = .error fault (Store.empty 5)
        ∧ fault.message = "runtime error: slice bounds out of range [9223372036854775807:5]" := by
  have hfails : Store.InPlace.append Int64.maxValue ⟨Opcode.clear.code, {}⟩ (Store.empty 5)
      = .error ⟨Int64.maxValue, 5⟩ (Store.empty 5) := rfl
  refine ⟨by decide, ?_, _, hfails, by decide⟩
  rintro ⟨next, why, t, hrefused, -⟩
  rw [hfails] at hrefused
  cases hrefused

end StripSequencer
