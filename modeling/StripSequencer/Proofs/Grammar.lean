import StripSequencer.Proofs.Layout
import StripSequencer.Refusal

/-!
# `StripSequencer.Proofs.Grammar` — validation decides the grammar of programs

Programs are byte strings that are put together from whole instructions. They have no length marks, and
operands may look like opcodes or like the terminator, so what a byte means depends on all bytes before
it. Three readings are compared here: the encodings of a list of words, one after the other
(`Word.encodeAll?`); decoding word after word, each at the offset where the one before it ends
(`Word.sweep`); and `Program.validate`.

## Contents
- `Word.encodeAll?`, with `encodeAll?_eq_some_iff`: the code of words is the code of their instructions.
- `Word.sweep`, with `sweep_layout`: decoding step after step finds the instructions where they lie.
- `Program.LongestPrefix`: the part of code that is made up of whole instructions; `longestPrefix_layout`.
- `validation_decides_grammar`.
-/

namespace StripSequencer

namespace Word

/-! ## The code of words -/

/-- The encodings of words one after the other, if every word is an instruction. -/
def encodeAll? : List Word → Option (List UInt8)
  | [] => some []
  | w :: words =>
    match w.encode?, encodeAll? words with
    | some bytes, some code => some (bytes ++ code)
    | _, _ => none

/-- The word with the operands that its opcode does not use set to zero. -/
def trimmed (w : Word) : Word := ofPayload w.tag w.operands

/-- The operands that are kept are those of the instruction. -/
theorem trimmed_eq {w : Word} {i : Instruction} (h : w.instruction? = some i) :
    w.trimmed = ofInstruction i := by
  obtain ⟨op, hop, rfl⟩ := Option.map_eq_some_iff.mp h
  unfold trimmed ofPayload
  rw [hop]

/-- The code of words is the code of the instructions that they stand for. -/
theorem encodeAll?_eq_some_iff {words : List Word} {code : List UInt8} :
    encodeAll? words = some code
      ↔ ∃ p, words.map instruction? = p.map some ∧ code = Program.encode p := by
  induction words generalizing code with
  | nil =>
    constructor
    · intro h
      exact ⟨[], rfl, (Option.some.inj h).symm⟩
    · rintro ⟨p, hp, rfl⟩
      obtain rfl : p = [] := List.map_eq_nil_iff.mp hp.symm
      rfl
  | cons w words ih =>
    constructor
    · intro h
      rw [encodeAll?] at h
      split at h
      · next bytes rest hw hrest =>
        obtain ⟨i, hi, rfl⟩ := Option.map_eq_some_iff.mp hw
        obtain ⟨p, hp, rfl⟩ := ih.mp hrest
        exact ⟨i :: p, by rw [List.map_cons, List.map_cons, hi, hp], (Option.some.inj h).symm⟩
      · cases h
    · rintro ⟨p, hp, rfl⟩
      cases p with
      | nil => cases hp
      | cons i p =>
        injection hp with hi hp
        have hbytes : w.encode? = some i.encode := by rw [encode?, hi]; rfl
        rw [encodeAll?, hbytes, ih.mpr ⟨p, hp, rfl⟩]
        rfl

/-- Instructions written as words have the code of the instructions. -/
theorem encodeAll?_ofInstruction (p : List Instruction) :
    encodeAll? (p.map ofInstruction) = some (Program.encode p) := by
  refine encodeAll?_eq_some_iff.mpr ⟨p, ?_, rfl⟩
  rw [List.map_map]
  exact List.map_congr_left fun i _ => instruction?_ofInstruction i

/-- Words without their unused operands are determined by their instructions. -/
theorem map_trimmed {words : List Word} {p : List Instruction}
    (h : words.map instruction? = p.map some) : words.map trimmed = p.map ofInstruction := by
  induction words generalizing p with
  | nil =>
    obtain rfl : p = [] := List.map_eq_nil_iff.mp h.symm
    rfl
  | cons w words ih =>
    cases p with
    | nil => cases h
    | cons i p =>
      injection h with hi hp
      rw [List.map_cons, List.map_cons, trimmed_eq hi, ih hp]

/-! ## Decoding word after word -/

/-- The instruction that is read lies inside the code. -/
theorem readAt_size_le {code : List UInt8} {offset : Nat} (h : (readAt code offset).2 ≠ 0) :
    offset + (readAt code offset).2 ≤ code.length := by
  cases hread : Instruction.read? (code.drop offset) with
  | none => exact absurd (readAt_of_none hread) h
  | some found =>
    obtain ⟨i, rest⟩ := found
    have hlength := congrArg List.length (Instruction.eq_encode_append_of_read? hread)
    rw [List.length_drop, List.length_append, Instruction.length_encode] at hlength
    have hpos := i.size_pos
    rw [readAt_of_read? hread]
    show offset + i.size ≤ code.length
    omega

/-- What decoding step after step finds. -/
structure Sweep where
  /-- The words with their offsets. -/
  steps : List (Nat × Word)
  /-- The offset at which no complete instruction starts. -/
  stop : Nat
deriving DecidableEq, Repr

/-- The words without their offsets. -/
def Sweep.words (s : Sweep) : List Word := s.steps.map (·.2)

/-- Decodes the word at `offset`, then the word behind it, and so on, until one has no length. -/
def sweepFrom (code : List UInt8) (offset : Nat) : Sweep :=
  if _h : (readAt code offset).2 = 0 then ⟨[], offset⟩
  else
    let tail := sweepFrom code (offset + (readAt code offset).2)
    { tail with steps := (offset, (readAt code offset).1) :: tail.steps }
termination_by code.length - offset
decreasing_by
  have hle := readAt_size_le _h
  omega

/-- Decodes word after word from the first byte on. -/
def sweep (code : List UInt8) : Sweep := sweepFrom code 0

/-- Every step of a sweep is a word that is read at its offset. -/
theorem readAt_of_mem_sweepFrom {code : List UInt8} {start offset : Nat} {w : Word}
    (h : (offset, w) ∈ (sweepFrom code start).steps) :
    (readAt code offset).1 = w ∧ 0 < (readAt code offset).2 := by
  fun_induction sweepFrom code start with
  | case1 start hzero => cases h
  | case2 start hpos tail ih =>
    rcases List.mem_cons.mp h with hhead | htail
    · injection hhead with hoffset hword
      subst hoffset hword
      exact ⟨rfl, Nat.pos_of_ne_zero hpos⟩
    · exact ih htail

end Word

namespace Program

open Word

/-- Decoding goes through the instructions of a list where they lie. The induction is on the instructions
that are still ahead; `done` are those behind. -/
theorem sweepFrom_layout {rest : List UInt8} (hrest : Instruction.read? rest = none)
    (done p : List Instruction) :
    sweepFrom (encode (done ++ p) ++ rest) (size done)
      = ⟨(located (size done) p).map fun step => (step.1, ofInstruction step.2),
          size done + size p⟩ := by
  have hdrop : (encode (done ++ p) ++ rest).drop (size done) = encode p ++ rest := by
    rw [encode_append, List.append_assoc]
    exact List.drop_left
  induction p generalizing done with
  | nil =>
    have hzero : (readAt (encode (done ++ []) ++ rest) (size done)).2 = 0 := by
      refine readAt_of_none ?_
      rw [hdrop]
      exact hrest
    rw [sweepFrom, dif_pos hzero]
    rfl
  | cons i p ih =>
    have hfirst : Instruction.read? ((encode (done ++ i :: p) ++ rest).drop (size done))
        = some (i, encode p ++ rest) := by
      rw [hdrop, encode_cons, List.append_assoc, Instruction.read?_encode_append]
    have hnext := ih (done ++ [i])
    rw [List.append_assoc, List.singleton_append, size_append, size_cons, size_nil, Nat.add_zero] at hnext
    rw [sweepFrom, readAt_of_read? hfirst, dif_neg (Nat.ne_of_gt i.size_pos), hnext ?_]
    · simp [located, Nat.add_assoc]
    · rw [← List.drop_drop, hdrop, encode_cons, List.append_assoc, ← Instruction.length_encode]
      exact List.drop_left

theorem sweep_layout {rest : List UInt8} (hrest : Instruction.read? rest = none) (p : List Instruction) :
    sweep (encode p ++ rest)
      = ⟨(located 0 p).map fun step => (step.1, ofInstruction step.2), size p⟩ := by
  have h := sweepFrom_layout hrest [] p
  rwa [List.nil_append, size_nil, Nat.zero_add] at h

theorem sweep_encode (p : List Instruction) :
    (sweep (encode p)).words = p.map ofInstruction ∧ (sweep (encode p)).stop = size p := by
  have hend : Instruction.read? [] = none := rfl
  have h := sweep_layout hend p
  rw [List.append_nil] at h
  rw [h]
  refine ⟨?_, rfl⟩
  calc ((located 0 p).map fun step => (step.1, ofInstruction step.2)).map (·.2)
      = ((located 0 p).map (·.2)).map ofInstruction := by rw [List.map_map, List.map_map]; rfl
    _ = p.map ofInstruction := by rw [map_snd_located]

/-! ## The longest prefix of whole instructions -/

/-- The first `n` bytes of code are a list of whole instructions, and no longer prefix is. -/
structure LongestPrefix (code : List UInt8) (n : Nat) : Prop where
  le : n ≤ code.length
  whole : ∃ words, encodeAll? words = some (code.take n)
  longest : ∀ m ≤ code.length, (∃ words, encodeAll? words = some (code.take m)) → m ≤ n

/-- Being made up of whole instructions, said of words and of instructions. -/
theorem exists_encodeAll?_iff {code : List UInt8} :
    (∃ words, encodeAll? words = some code) ↔ ∃ p, code = encode p := by
  constructor
  · rintro ⟨words, h⟩
    obtain ⟨p, _, rfl⟩ := encodeAll?_eq_some_iff.mp h
    exact ⟨p, rfl⟩
  · rintro ⟨p, rfl⟩
    exact ⟨p.map ofInstruction, encodeAll?_ofInstruction p⟩

/-- Nothing can be added to the instructions that reading finds. Whatever is behind a shorter list of
whole instructions is itself a list and a rest, and code is a list and a rest in one way only. -/
theorem longestPrefix_layout {rest : List UInt8} (hrest : Instruction.read? rest = none)
    (p : List Instruction) : LongestPrefix (encode p ++ rest) (size p) where
  le := by
    rw [List.length_append, length_encode]
    omega
  whole := exists_encodeAll?_iff.mpr ⟨p, List.take_left⟩
  longest := by
    intro m hm hwhole
    obtain ⟨q, hq⟩ := exists_encodeAll?_iff.mp hwhole
    obtain ⟨q', rest', hsplit, hrest'⟩ := exists_layout ((encode p ++ rest).drop m)
    have hcode : encode p ++ rest = encode (q ++ q') ++ rest' := by
      rw [encode_append, List.append_assoc, ← hsplit, ← hq, List.take_append_drop]
    have hp : p = q ++ q' := by
      rw [← decode_layout hrest p, hcode, decode_layout hrest']
    have hsize : size q = m := by
      have hlength := congrArg List.length hq
      rw [List.length_take, Nat.min_eq_left hm, length_encode] at hlength
      exact hlength.symm
    rw [hp, size_append]
    omega

theorem LongestPrefix.unique {code : List UInt8} {n m : Nat} (hn : LongestPrefix code n)
    (hm : LongestPrefix code m) : n = m :=
  Nat.le_antisymm (hm.longest n hn.le hn.whole) (hn.longest m hm.le hm.whole)

/-! ## Validation -/

/-- The flaw of code says what stands behind its longest prefix of whole instructions. -/
theorem exists_stop_of_flaw {code : List UInt8} {flaw : Flaw} (h : validate code = .error flaw) :
    ∃ n b, LongestPrefix code n ∧ code[n]? = some b ∧ flawAt? n [b] = some flaw := by
  obtain ⟨p, rest, rfl, hrest⟩ := exists_layout code
  rw [validate_eq_scan, scan_layout hrest] at h
  cases rest with
  | nil => cases h
  | cons b rest =>
    refine ⟨size p, b, longestPrefix_layout hrest p, ?_, ?_⟩
    · rw [List.getElem?_append_right (Nat.le_of_eq (length_encode p)), length_encode, Nat.sub_self]
      rfl
    · injection h with hflaw
      exact congrArg some hflaw

end Program

open Program

/-- **Validation decides the grammar of programs.** Code is accepted exactly if it is made up of whole
instructions. Decoding then gives back every list of words that the code is made up of, except for unused
operands, and reads all of the code. Otherwise the flaw names the end of the longest prefix that is made
up of whole instructions and the byte there, and tells a byte that is no opcode from an opcode whose
operands are cut off. -/
theorem validation_decides_grammar (code : List UInt8) :
    (validate code = .ok () ↔ ∃ words, Word.encodeAll? words = some code)
      ∧ (∀ words, Word.encodeAll? words = some code →
          (Word.sweep code).words = words.map Word.trimmed
          ∧ (Word.sweep code).stop = code.length
          ∧ Word.encodeAll? (Word.sweep code).words = some code)
      ∧ ∀ flaw, validate code = .error flaw →
          ∃ n b, LongestPrefix code n ∧ code[n]? = some b
            ∧ ((Opcode.ofByte? b = none ∧ flaw = .unknownByte n b
                ∧ flaw.message = "offset " ++ toString n ++ ": byte 0x" ++ Hexadecimal.byte b
                    ++ ": corrupt program")
              ∨ ∃ op, Opcode.ofByte? b = some op ∧ flaw = .truncated n op
                ∧ flaw.message = "offset " ++ toString n ++ ": truncated " ++ op.name
                    ++ ": corrupt program") := by
  refine ⟨?_, ?_, ?_⟩
  · rw [validate_eq_ok_iff, exists_encodeAll?_iff]
  · intro words hwords
    obtain ⟨p, hp, rfl⟩ := Word.encodeAll?_eq_some_iff.mp hwords
    obtain ⟨hfound, hstop⟩ := sweep_encode p
    refine ⟨by rw [hfound, Word.map_trimmed hp], hstop, ?_⟩
    rw [hfound, Word.encodeAll?_ofInstruction]
  · intro flaw hflaw
    obtain ⟨n, b, hlongest, hbyte, hat⟩ := exists_stop_of_flaw hflaw
    refine ⟨n, b, hlongest, hbyte, ?_⟩
    cases hop : Opcode.ofByte? b with
    | none =>
      obtain rfl : Flaw.unknownByte n b = flaw := by simpa [flawAt?, hop] using hat
      exact .inl ⟨rfl, rfl, by rw [Flaw.message, String.append_assoc]; rfl⟩
    | some op =>
      obtain rfl : Flaw.truncated n op = flaw := by simpa [flawAt?, hop] using hat
      exact .inr ⟨op, rfl, rfl, by rw [Flaw.message, String.append_assoc]; rfl⟩

/-- Operands that look like opcodes and terminators, operands that are not used, and an opcode at the end
whose operand is cut off. -/
theorem validation_of_misleading_bytes :
    Word.encodeAll? [⟨2, ⟨4, 0, 1, 3⟩⟩, ⟨1, ⟨9, 9, 9, 9⟩⟩, ⟨3, ⟨0, 7, 7, 7⟩⟩]
        = some [2, 4, 0, 1, 3, 1, 3, 0]
      ∧ (Word.sweep [2, 4, 0, 1, 3, 1, 3, 0]).words = [⟨2, ⟨4, 0, 1, 3⟩⟩, ⟨1, {}⟩, ⟨3, {}⟩]
      ∧ validate [2, 4, 0, 1, 3, 1, 3] = .error (.truncated 6 .delay)
      ∧ LongestPrefix [2, 4, 0, 1, 3, 1, 3] 6 := by
  have hflaw : validate (encode [.pixel 4 0 1 3, .clear] ++ [3]) = .error (.truncated 6 .delay) := by
    rw [validate_eq_scan, scan_layout rfl]
    rfl
  have hwords : Word.encodeAll? [⟨2, ⟨4, 0, 1, 3⟩⟩, ⟨1, ⟨9, 9, 9, 9⟩⟩, ⟨3, ⟨0, 7, 7, 7⟩⟩]
      = some [2, 4, 0, 1, 3, 1, 3, 0] := rfl
  have hfound := ((validation_decides_grammar _).2.1 _ hwords).1
  refine ⟨hwords, hfound, hflaw, ?_⟩
  obtain ⟨n, b, hlongest, _, ⟨_, hunknown, _⟩ | ⟨op, _, htruncated, _⟩⟩ :=
    (validation_decides_grammar _).2.2 _ hflaw
  · cases hunknown
  · injection htruncated with hoffset
    exact hoffset ▸ hlongest

end StripSequencer
