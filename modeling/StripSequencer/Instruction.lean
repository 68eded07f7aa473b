import StripSequencer.Opcode

/-!
# `StripSequencer.Instruction` — instructions and their bytes

## Contents
- `Instruction`: an opcode with its operands; `encode`, `text`, and the reader `Instruction.read?`.
- `Payload`: the four bytes that come with every command.
- `Word`: an opcode byte with four operand bytes, whether or not the byte is an opcode.
-/

namespace StripSequencer

/-- An instruction with the operands that its opcode takes. -/
inductive Instruction where
  | clear
  | pixel (index red green blue : UInt8)
  | delay (ticks : UInt8)
  | all (red green blue : UInt8)
deriving DecidableEq, Repr

/-- Four bytes of operands; an instruction uses the first ones. -/
structure Payload where
  first : UInt8 := 0
  second : UInt8 := 0
  third : UInt8 := 0
  fourth : UInt8 := 0
deriving DecidableEq, Repr, Inhabited

namespace Payload

/-- The first four bytes of a list; missing ones are zero. -/
def ofList (bytes : List UInt8) : Payload :=
  ⟨bytes.getD 0 0, bytes.getD 1 0, bytes.getD 2 0, bytes.getD 3 0⟩

/-- The four bytes in order. -/
def toList (p : Payload) : List UInt8 := [p.first, p.second, p.third, p.fourth]

/-- A payload is read back from its bytes. -/
@[simp] theorem ofList_toList (p : Payload) : ofList p.toList = p := rfl

end Payload

namespace Instruction

/-- The kind of an instruction. -/
def opcode : Instruction → Opcode
  | .clear => .clear
  | .pixel .. => .pixel
  | .delay .. => .delay
  | .all .. => .all

/-- The operand bytes in order. -/
def operands : Instruction → List UInt8
  | .clear => []
  | .pixel index red green blue => [index, red, green, blue]
  | .delay ticks => [ticks]
  | .all red green blue => [red, green, blue]

/-- The bytes of an instruction. -/
def encode (i : Instruction) : List UInt8 := i.opcode.code :: i.operands

/-- The number of bytes of an instruction. -/
def size (i : Instruction) : Nat := i.opcode.size

/-- An instruction is a delay or it is none. -/
theorem delay_or_other (i : Instruction) : (∃ ticks, i = .delay ticks) ∨ ∀ ticks, i ≠ .delay ticks := by
  cases i with
  | delay ticks => exact .inl ⟨ticks, rfl⟩
  | clear | pixel | all => exact .inr (by rintro _ ⟨⟩)

/-- The instruction as program text: its mnemonic and its operands in decimal. -/
def text (i : Instruction) : String :=
  String.intercalate " " (i.opcode.mnemonic :: i.operands.map fun b => toString b.toNat)

/-- The instruction of an opcode with the bytes of a payload, of which it takes as many as it needs. -/
def ofPayload (op : Opcode) (p : Payload) : Instruction :=
  match op with
  | .clear => .clear
  | .pixel => .pixel p.first p.second p.third p.fourth
  | .delay => .delay p.first
  | .all => .all p.first p.second p.third

@[simp] theorem opcode_ofPayload (op : Opcode) (p : Payload) : (ofPayload op p).opcode = op := by
  cases op <;> rfl

/-- Reads the instruction at the front of `code`, and gives back what follows it. There is none if the
first byte is no opcode or an operand is missing. -/
def read? : List UInt8 → Option (Instruction × List UInt8)
  | [] => none
  | b :: code =>
    match Opcode.ofByte? b, code with
    | some .clear, rest => some (.clear, rest)
    | some .pixel, index :: red :: green :: blue :: rest => some (.pixel index red green blue, rest)
    | some .delay, ticks :: rest => some (.delay ticks, rest)
    | some .all, red :: green :: blue :: rest => some (.all red green blue, rest)
    | _, _ => none

/-! ## The reader and the encoding -/

/-- An instruction has as many bytes as its opcode says. -/
@[simp] theorem length_encode (i : Instruction) : i.encode.length = i.size := by
  cases i <;> rfl

/-- Every instruction has at least one byte. -/
theorem size_pos (i : Instruction) : 0 < i.size := i.opcode.size_pos

/-- What was written is read back, whatever follows. -/
@[simp] theorem read?_encode_append (i : Instruction) (rest : List UInt8) :
    read? (i.encode ++ rest) = some (i, rest) := by
  cases i <;> rfl

/-- What is read is the encoding of the result, followed by the rest. -/
theorem eq_encode_append_of_read? {code rest : List UInt8} {i : Instruction}
    (h : read? code = some (i, rest)) : code = i.encode ++ rest := by
  cases code with
  | nil => simp [read?] at h
  | cons b code =>
    simp only [read?] at h
    split at h
    · next hb => cases h; rw [← Opcode.code_of_ofByte? hb]; rfl
    · next hb => cases h; rw [← Opcode.code_of_ofByte? hb]; rfl
    · next hb => cases h; rw [← Opcode.code_of_ofByte? hb]; rfl
    · next hb => cases h; rw [← Opcode.code_of_ofByte? hb]; rfl
    · cases h

/-- What follows an instruction begins as many bytes later as the instruction has. -/
theorem eq_drop_of_read? {code rest : List UInt8} {offset : Nat} {i : Instruction}
    (h : read? (code.drop offset) = some (i, rest)) : rest = code.drop (offset + i.size) := by
  rw [← List.drop_drop, eq_encode_append_of_read? h, ← length_encode]
  exact List.drop_left.symm

/-- Reading an instruction leaves less than there was. -/
theorem length_lt_of_read? {code rest : List UInt8} {i : Instruction}
    (h : read? code = some (i, rest)) : rest.length < code.length := by
  rw [eq_encode_append_of_read? h, List.length_append, length_encode]
  have := i.size_pos
  omega

end Instruction

/-! ## Words -/

/-- A byte in an opcode's place with four operand bytes. It stands for an instruction if the byte is an
opcode. -/
structure Word where
  tag : UInt8
  operands : Payload := {}
deriving DecidableEq, Repr

namespace Word

/-- The word of an instruction; unused operands are zero. -/
def ofInstruction (i : Instruction) : Word := ⟨i.opcode.code, Payload.ofList i.operands⟩

/-- The instruction that a word stands for. -/
def instruction? (w : Word) : Option Instruction :=
  (Opcode.ofByte? w.tag).map fun op => Instruction.ofPayload op w.operands

/-- The word with a payload, of which only the bytes that the opcode uses are kept. -/
def ofPayload (tag : UInt8) (p : Payload) : Word :=
  match Opcode.ofByte? tag with
  | some op => ofInstruction (Instruction.ofPayload op p)
  | none => ⟨tag, {}⟩

/-- The number of bytes of the word's instruction, zero if it is none. -/
def size (w : Word) : Nat := (w.instruction?.map Instruction.size).getD 0

/-- The bytes of the word's instruction. -/
def encode? (w : Word) : Option (List UInt8) := w.instruction?.map Instruction.encode

/-- The instruction as program text, or the name of the byte. -/
def text (w : Word) : String :=
  match w.instruction? with
  | some i => i.text
  | none => Opcode.nameOfByte w.tag

/-- The word at an offset of `code`, and the number of bytes of its instruction. That number is zero, and
the operands are, where no complete instruction starts; outside `code` the byte counts as `0`. -/
def readAt (code : List UInt8) (offset : Int) : Word × Nat :=
  if offset < 0 then (⟨terminator, {}⟩, 0)
  else
    match code.drop offset.toNat with
    | [] => (⟨terminator, {}⟩, 0)
    | b :: rest =>
      match Instruction.read? (b :: rest) with
      | some (i, _) => (ofInstruction i, i.size)
      | none => (⟨b, {}⟩, 0)

/-- Where a complete instruction starts, its word is read. -/
theorem readAt_of_read? {code rest : List UInt8} {offset : Nat} {i : Instruction}
    (h : Instruction.read? (code.drop offset) = some (i, rest)) :
    readAt code offset = (ofInstruction i, i.size) := by
  unfold readAt
  rw [if_neg (by omega), Int.toNat_natCast]
  cases hdrop : code.drop offset with
  | nil => rw [hdrop] at h; cases h
  | cons b tail =>
    rw [hdrop] at h
    simp only [h]

end Word

end StripSequencer
