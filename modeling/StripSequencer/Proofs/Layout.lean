import StripSequencer.Proofs.InPlace
import StripSequencer.Proofs.Scanning

/-!
# `StripSequencer.Proofs.Layout` — how a list of instructions lies in a buffer

A buffer that holds a program is the code of a list of instructions followed by a rest that starts no
complete instruction. Every byte string has this form in exactly one way, so scanning, validating and
walking a buffer all come down to the list.

## Contents
- `Program.size`, `Program.offset`, `Program.located`: where the instructions of a list lie.
- `scan_layout`, `validate_eq_ok_iff`, `decode_encode`: reading code back.
- `Program.Ended`: a rest that is empty or starts with the terminator.
- `Store.walk_layout`, `Store.extent_layout`: the readings of a store.
- `overwrite_layout`, `set_layout`: what a write at the end of the program leaves.
- `Store.place_layout`, `Store.terminate_layout`, `Store.load_encode`: what writing to a store leaves.
-/

namespace StripSequencer

namespace Program

/-! ## Code of lists -/

@[simp] theorem encode_nil : encode [] = [] := rfl

@[simp] theorem encode_cons (i : Instruction) (p : List Instruction) :
    encode (i :: p) = i.encode ++ encode p := rfl

@[simp] theorem encode_append (p q : List Instruction) : encode (p ++ q) = encode p ++ encode q :=
  List.flatMap_append

/-- The number of bytes of a program. -/
def size (p : List Instruction) : Nat := (encode p).length

@[simp] theorem length_encode (p : List Instruction) : (encode p).length = size p := rfl

@[simp] theorem size_nil : size [] = 0 := rfl

@[simp] theorem size_cons (i : Instruction) (p : List Instruction) : size (i :: p) = i.size + size p := by
  unfold size
  rw [encode_cons, List.length_append, Instruction.length_encode]

@[simp] theorem size_append (p q : List Instruction) : size (p ++ q) = size p + size q := by
  unfold size
  rw [encode_append, List.length_append]

/-- Every instruction takes a byte, so a program is not longer than its code. -/
theorem length_le_size (p : List Instruction) : p.length ≤ size p := by
  induction p with
  | nil => exact Nat.le_refl 0
  | cons i p ih =>
    have hi := i.size_pos
    rw [List.length_cons, size_cons]
    omega

/-- Only the empty program takes no byte. -/
theorem size_eq_zero_iff {p : List Instruction} : size p = 0 ↔ p = [] := by
  constructor
  · intro h
    have hle := length_le_size p
    exact List.eq_nil_of_length_eq_zero (by omega)
  · rintro rfl
    exact size_nil

/-! ## Offsets -/

/-- The offset of instruction `n`; the size of the program if there are only `n` instructions. -/
def offset (p : List Instruction) (n : Nat) : Nat := size (p.take n)

@[simp] theorem offset_zero (p : List Instruction) : offset p 0 = 0 := by simp [offset]

@[simp] theorem offset_length (p : List Instruction) : offset p p.length = size p := by simp [offset]

theorem offset_le_size (p : List Instruction) (n : Nat) : offset p n ≤ size p := by
  have h := size_append (p.take n) (p.drop n)
  rw [List.take_append_drop] at h
  unfold offset
  omega

/-- The next instruction starts where this one ends. -/
theorem offset_succ {p : List Instruction} {n : Nat} {i : Instruction} (h : p[n]? = some i) :
    offset p (n + 1) = offset p n + i.size := by
  unfold offset
  rw [List.take_add_one, h, size_append]
  simp

/-- Appending to a program moves no instruction. -/
theorem offset_append {p : List Instruction} {n : Nat} (h : n ≤ p.length) (q : List Instruction) :
    offset (p ++ q) n = offset p n := by
  unfold offset
  rw [List.take_append_of_le_length h]

/-- Different instructions lie at different offsets. -/
theorem offset_lt_offset {p : List Instruction} {m n : Nat} (h : m < n) (hn : n ≤ p.length) :
    offset p m < offset p n := by
  have hm : p[m]? = some p[m] := List.getElem?_eq_getElem (by omega)
  have hsucc := offset_succ hm
  have hpos := p[m].size_pos
  -- what lies before `m + 1` is part of what lies before `n`
  have hle : offset p (m + 1) ≤ offset p n := by
    have htake := offset_le_size (p.take n) (m + 1)
    unfold offset at htake ⊢
    rwa [List.take_take, Nat.min_eq_left (by omega)] at htake
  omega

theorem offset_injective {p : List Instruction} {m n : Nat} (hm : m ≤ p.length) (hn : n ≤ p.length)
    (h : offset p m = offset p n) : m = n := by
  rcases Nat.lt_trichotomy m n with hlt | heq | hgt
  · have hoff := offset_lt_offset hlt hn
    omega
  · exact heq
  · have hoff := offset_lt_offset hgt hm
    omega

/-- The buffer from the offset of an instruction on. -/
theorem drop_offset (p : List Instruction) (n : Nat) (rest : List UInt8) :
    (encode p ++ rest).drop (offset p n) = encode (p.drop n) ++ rest := by
  have hsplit : encode p ++ rest = encode (p.take n) ++ (encode (p.drop n) ++ rest) := by
    rw [← List.append_assoc, ← encode_append, List.take_append_drop]
  rw [hsplit]
  exact List.drop_left

/-- The instructions of a program with their offsets, counted from `start`. -/
def located (start : Nat) : List Instruction → List (Nat × Instruction)
  | [] => []
  | i :: p => (start, i) :: located (start + i.size) p

theorem located_append (start : Nat) (p q : List Instruction) :
    located start (p ++ q) = located start p ++ located (start + size p) q := by
  induction p generalizing start with
  | nil => simp [located]
  | cons i p ih => simp [located, ih, Nat.add_assoc]

@[simp] theorem map_snd_located (start : Nat) (p : List Instruction) :
    (located start p).map (·.2) = p := by
  induction p generalizing start with
  | nil => rfl
  | cons i p ih => simp [located, ih]

/-- An instruction of a program lies at its offset. -/
theorem mem_located {p : List Instruction} {n : Nat} {i : Instruction} (h : p[n]? = some i) :
    (offset p n, i) ∈ located 0 p := by
  obtain ⟨hn, hi⟩ := List.getElem?_eq_some_iff.mp h
  have hsplit : p = p.take n ++ i :: p.drop (n + 1) := by
    rw [← hi, ← List.drop_eq_getElem_cons hn, List.take_append_drop]
  have hloc : located 0 p = located 0 (p.take n) ++ located (offset p n) (i :: p.drop (n + 1)) := by
    conv => lhs; rw [hsplit]
    rw [located_append, Nat.zero_add]
    rfl
  rw [hloc]
  exact List.mem_append_right _ List.mem_cons_self

/-! ## Reading code back -/

/-- Scanning the code of a list finds the list, and stops where the rest begins. -/
theorem scanFrom_layout {rest : List UInt8} (hrest : Instruction.read? rest = none)
    (start : Nat) (p : List Instruction) :
    scanFrom start (encode p ++ rest) = ⟨located start p, start + size p, rest⟩ := by
  induction p generalizing start with
  | nil => exact scanFrom_of_none hrest
  | cons i p ih =>
    have hread : Instruction.read? (encode (i :: p) ++ rest) = some (i, encode p ++ rest) := by
      rw [encode_cons, List.append_assoc, Instruction.read?_encode_append]
    rw [scanFrom_of_some hread]
    simp [ih, located, Nat.add_assoc]

theorem scan_layout {rest : List UInt8} (hrest : Instruction.read? rest = none) (p : List Instruction) :
    scan (encode p ++ rest) = ⟨located 0 p, size p, rest⟩ := by
  unfold scan
  rw [scanFrom_layout hrest, Nat.zero_add]

theorem scan_encode (p : List Instruction) : scan (encode p) = ⟨located 0 p, size p, []⟩ := by
  have hnil : Instruction.read? [] = none := rfl
  have h := scan_layout hnil p
  rwa [List.append_nil] at h

theorem decode_layout {rest : List UInt8} (hrest : Instruction.read? rest = none) (p : List Instruction) :
    decode (encode p ++ rest) = p := by
  unfold decode
  rw [scan_layout hrest]
  exact map_snd_located 0 p

@[simp] theorem decode_encode (p : List Instruction) : decode (encode p) = p := by
  unfold decode
  rw [scan_encode]
  exact map_snd_located 0 p

/-- Code determines its instructions. -/
theorem encode_injective {p q : List Instruction} (h : encode p = encode q) : p = q := by
  rw [← decode_encode p, h, decode_encode]

/-- Every byte string is the code of a list, followed by what starts no instruction. -/
theorem exists_layout (code : List UInt8) :
    ∃ p rest, code = encode p ++ rest ∧ Instruction.read? rest = none := by
  cases hread : Instruction.read? code with
  | none => exact ⟨[], code, rfl, hread⟩
  | some found =>
    obtain ⟨i, tail⟩ := found
    -- the recursion is on what the reader leaves, which is shorter
    have hlt := Instruction.length_lt_of_read? hread
    obtain ⟨p, rest, htail, hrest⟩ := exists_layout tail
    refine ⟨i :: p, rest, ?_, hrest⟩
    rw [Instruction.eq_encode_append_of_read? hread, htail, encode_cons, List.append_assoc]
termination_by code.length

/-- The instructions read from code take no more bytes than there are. -/
theorem size_decode_le (code : List UInt8) : size (decode code) ≤ code.length := by
  obtain ⟨p, rest, rfl, hrest⟩ := exists_layout code
  rw [decode_layout hrest, List.length_append, length_encode]
  omega

/-- No instruction is found exactly if none stands at the front. -/
theorem decode_eq_nil_iff {code : List UInt8} : decode code = [] ↔ Instruction.read? code = none := by
  obtain ⟨p, rest, rfl, hrest⟩ := exists_layout code
  rw [decode_layout hrest]
  cases p with
  | nil => simp [hrest]
  | cons i p => simp

/-- A program passes validation. -/
@[simp] theorem validate_encode (p : List Instruction) : validate (encode p) = .ok () := by
  rw [validate_eq_scan, scan_encode]
  rfl

/-- What passes validation is a program. -/
theorem exists_encode_of_validate {code : List UInt8} (h : validate code = .ok ()) :
    ∃ p, code = encode p := by
  obtain ⟨p, rest, rfl, hrest⟩ := exists_layout code
  rw [validate_eq_scan, scan_layout hrest] at h
  cases rest with
  | nil => exact ⟨p, List.append_nil _⟩
  | cons b rest => simp [flawAt?] at h

/-- Validation accepts the code of instruction lists, and no other code. -/
theorem validate_eq_ok_iff {code : List UInt8} : validate code = .ok () ↔ ∃ p, code = encode p := by
  constructor
  · exact exists_encode_of_validate
  · rintro ⟨p, rfl⟩
    exact validate_encode p

/-! ## The end of a program -/

/-- Nothing follows, or a terminator does. -/
def Ended (rest : List UInt8) : Prop := ∀ b ∈ rest.head?, b = terminator

theorem ended_nil : Ended [] := by
  intro b hb
  cases hb

theorem ended_set_terminator (rest : List UInt8) : Ended (rest.set 0 terminator) := by
  cases rest with
  | nil => exact ended_nil
  | cons b rest =>
    intro c hc
    exact (Option.some.inj hc).symm

theorem ended_replicate (n : Nat) : Ended (List.replicate n terminator) := by
  intro b hb
  exact (List.mem_replicate.mp (List.mem_of_mem_head? hb)).2

/-- No instruction starts at the end of a program. -/
theorem Ended.read?_eq_none {rest : List UInt8} (h : Ended rest) : Instruction.read? rest = none := by
  cases rest with
  | nil => rfl
  | cons b rest =>
    have hb : b = terminator := h b rfl
    subst hb
    rfl

/-- Writing the terminator where it stands changes nothing. -/
theorem Ended.set_terminator {rest : List UInt8} (h : Ended rest) : rest.set 0 terminator = rest := by
  cases rest with
  | nil => rfl
  | cons b rest => rw [List.set_cons_zero, h b rfl]

end Program

open Program

/-! ## Writing at the end of a program -/

/-- An instruction written at the end of the program extends it. -/
theorem overwrite_layout (p : List Instruction) (rest : List UInt8) (i : Instruction) :
    overwrite (encode p ++ rest) (size p) i.encode = encode (p ++ [i]) ++ rest.drop i.size := by
  have htake : (encode p ++ rest).take (size p) = encode p := List.take_left
  have hdrop : (encode p ++ rest).drop (size p + i.size) = rest.drop i.size := by
    rw [← List.drop_drop, size, List.drop_left]
  unfold overwrite
  rw [htake, Instruction.length_encode, hdrop]
  simp

/-- A program written from the first byte on replaces what is there. -/
theorem overwrite_zero (code : List UInt8) (p : List Instruction) :
    overwrite code 0 (encode p) = encode p ++ code.drop (size p) := by
  simp [overwrite]

/-- A byte written at the end of the program is the first of the rest. -/
theorem set_layout (p : List Instruction) (rest : List UInt8) (b : UInt8) :
    (encode p ++ rest).set (size p) b = encode p ++ rest.set 0 b := by
  rw [List.set_append_right (size p) b (Nat.le_refl _), length_encode, Nat.sub_self]

namespace Store

/-! ## Reading a store -/

/-- A walk with enough steps visits the instructions where they lie. -/
theorem visit_layout {rest : List UInt8} (hrest : Instruction.read? rest = none) (p : List Instruction)
    {bound : Nat} (hbound : p.length ≤ bound) (start : Nat) :
    visit bound start (encode p ++ rest) = located start p := by
  induction p generalizing bound start with
  | nil =>
    cases bound with
    | zero => rfl
    | succ bound => simp [visit, hrest, located]
  | cons i p ih =>
    cases bound with
    | zero => simp at hbound
    | succ bound =>
      have hle : p.length ≤ bound := by simpa using hbound
      simp only [visit, encode_cons, List.append_assoc, Instruction.read?_encode_append, located]
      rw [ih hle]

variable {s : Store} {p : List Instruction} {rest : List UInt8}

/-- The buffer is the program and the rest. -/
theorem capacity_layout (hcode : s.code = encode p ++ rest) : s.capacity = size p + rest.length := by
  unfold capacity
  rw [hcode, List.length_append, length_encode]

/-- The bound on a walk never cuts it: there are at least as many bytes as instructions. -/
theorem walk_layout (hcode : s.code = encode p ++ rest) (hrest : Instruction.read? rest = none) :
    s.walk = located 0 p := by
  have hlen : p.length ≤ s.capacity := by
    have hp := length_le_size p
    rw [capacity_layout hcode]
    omega
  unfold walk
  rw [hcode]
  exact visit_layout hrest p hlen 0

theorem extent_layout (hcode : s.code = encode p ++ rest) (hrest : Instruction.read? rest = none) :
    s.extent = size p := by
  unfold extent
  rw [walk_layout hcode hrest]
  rcases List.eq_nil_or_concat p with rfl | ⟨q, i, rfl⟩
  · rfl
  · rw [List.concat_eq_append, located_append, size_append]
    simp [located]

/-- A store counts as empty exactly if it holds the empty program. What follows an instruction has no say
in it. -/
theorem isEmpty_layout (hcode : s.code = encode p ++ rest) (hrest : p = [] → Ended rest) :
    s.isEmpty = true ↔ p = [] := by
  unfold isEmpty
  rw [hcode]
  cases p with
  | nil =>
    cases rest with
    | nil => simp
    | cons b rest => simp [hrest rfl b rfl]
  | cons i p => cases i <;> simp [Instruction.encode, Instruction.opcode, Opcode.code, terminator]

theorem leading_layout (hcode : s.code = encode p ++ rest) : s.leading (size p) = encode p := by
  unfold leading
  rw [hcode, Int.toNat_natCast]
  exact List.take_left

/-! ## Writing to a store -/

/-- An instruction placed at the end of the program extends it. -/
theorem place_layout {s' : Store} {i : Instruction} (hcode : s.code = encode p ++ rest)
    (hplace : InPlace.place (size p) i s = .ok () s') :
    s'.code = encode (p ++ [i]) ++ rest.drop i.size ∧ s'.capacity = s.capacity
      ∧ s'.remaining = s.remaining - i.size := by
  by_cases hroom : s.remaining < i.size ∨ s.capacity < size p + i.size
  · rw [InPlace.place_of_full hroom] at hplace
    cases hplace
  · rw [InPlace.place_of_room hroom] at hplace
    cases hplace
    have hover : overwrite s.code (size p) i.encode = encode (p ++ [i]) ++ rest.drop i.size := by
      rw [hcode, overwrite_layout]
    refine ⟨hover, length_overwrite ?_, rfl⟩
    show size p + i.encode.length ≤ s.capacity
    rw [Instruction.length_encode]
    omega

/-- The terminator goes to the end of the program; a full buffer has no place for it, and needs none. -/
theorem terminate_layout (hcode : s.code = encode p ++ rest) :
    ∃ rest', ((s.terminate (size p)).getD s).code = encode p ++ rest' ∧ Ended rest' := by
  have hlength := capacity_layout hcode
  unfold terminate
  by_cases hfull : s.capacity ≤ size p
  · -- the program fills the buffer, so nothing follows that could be read
    have hrest : rest = [] := List.eq_nil_of_length_eq_zero (by omega)
    rw [if_pos (Or.inr (by omega))]
    exact ⟨rest, hcode, hrest ▸ ended_nil⟩
  · rw [if_neg (by omega)]
    refine ⟨rest.set 0 terminator, ?_, ended_set_terminator rest⟩
    show s.code.set (size p : Int).toNat terminator = _
    rw [hcode, Int.toNat_natCast, set_layout]

/-- The terminator changes neither the size of the buffer nor what remains. -/
theorem terminate_frame (s : Store) (n : Int) :
    ((s.terminate n).getD s).capacity = s.capacity
      ∧ ((s.terminate n).getD s).remaining = s.remaining := by
  unfold terminate
  by_cases hout : n < 0 ∨ (s.capacity : Int) ≤ n
  · rw [if_pos hout]
    exact ⟨rfl, rfl⟩
  · rw [if_neg hout]
    exact ⟨List.length_set, rfl⟩

/-- A program that fits is loaded: it stands at the front of the buffer, and is ended. -/
theorem load_encode (h : size p ≤ s.capacity) :
    s.load (encode p)
      = .ok ⟨encode p ++ (s.code.drop (size p)).set 0 terminator, s.capacity - size p⟩ := by
  have hfits : (encode p).length ≤ s.capacity := by rwa [length_encode]
  have hload := outcome_of_ok (InPlace.load_of_valid hfits (validate_encode p))
  rwa [overwrite_zero, length_encode, set_layout] at hload

end Store

end StripSequencer
