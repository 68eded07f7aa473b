import StripSequencer.Instruction

/-!
# `StripSequencer.Program` — byte strings as lists of instructions

A program is a list of instructions; its code is the concatenation of their bytes. `Program.scan` reads
code from the left as far as complete instructions go. `Program.validate` goes from opcode to opcode, and accepts code
that ends where an instruction ends.
-/

namespace StripSequencer.Program

/-- The code of a list of instructions. -/
def encode (program : List Instruction) : List UInt8 := program.flatMap Instruction.encode

/-! ## Code that is read word by word -/

/-- From `offset` on, `code` is the code of a list of instructions. -/
def WholeFrom (code : List UInt8) (offset : Nat) : Prop := ∃ program, code.drop offset = encode program

theorem wholeFrom_encode (program : List Instruction) : WholeFrom (encode program) 0 := ⟨program, rfl⟩

namespace WholeFrom

variable {code : List UInt8} {offset : Nat}

/-- Before the end there is an instruction, and after it code of the same kind. -/
theorem exists_read? (h : WholeFrom code offset) (hlt : offset < code.length) :
    ∃ i program, code.drop offset = encode (i :: program)
      ∧ Instruction.read? (code.drop offset) = some (i, encode program) := by
  obtain ⟨program, hdrop⟩ := h
  cases program with
  | nil =>
    have hnil : code.drop offset = [] := hdrop
    have hle := List.drop_eq_nil_iff.mp hnil
    omega
  | cons i program =>
    have hcons : encode (i :: program) = i.encode ++ encode program := rfl
    exact ⟨i, program, hdrop, by rw [hdrop, hcons, Instruction.read?_encode_append]⟩

/-- The word that is read is not empty. -/
theorem readAt_pos (h : WholeFrom code offset) (hlt : offset < code.length) :
    0 < (Word.readAt code offset).2 := by
  obtain ⟨i, program, -, hread⟩ := h.exists_read? hlt
  rw [Word.readAt_of_read? hread]
  exact i.size_pos

theorem next (h : WholeFrom code offset) (hlt : offset < code.length) :
    WholeFrom code (offset + (Word.readAt code offset).2) := by
  obtain ⟨i, program, hdrop, hread⟩ := h.exists_read? hlt
  refine ⟨program, ?_⟩
  rw [Word.readAt_of_read? hread, ← List.drop_drop, hdrop, ← Instruction.length_encode]
  exact List.drop_left

end WholeFrom

/-! ## Reading from the left -/

/-- What reading code from the left finds. -/
structure Scan where
  /-- The instructions with their offsets. -/
  steps : List (Nat × Instruction)
  /-- The offset at which reading stopped. -/
  stop : Nat
  /-- The code from there on. -/
  rest : List UInt8
deriving DecidableEq, Repr

/-- Reads `code`, whose first byte has the given offset, as far as complete instructions go. -/
def scanFrom (offset : Nat) (code : List UInt8) : Scan :=
  match _h : Instruction.read? code with
  | none => ⟨[], offset, code⟩
  | some (i, rest) =>
    let tail := scanFrom (offset + i.size) rest
    { tail with steps := (offset, i) :: tail.steps }
termination_by code.length
decreasing_by exact Instruction.length_lt_of_read? _h

/-- Reads `code` as far as complete instructions go. -/
def scan (code : List UInt8) : Scan := scanFrom 0 code

/-- The instructions at the front of `code`. -/
def decode (code : List UInt8) : List Instruction := (scan code).steps.map (·.2)

/-- Why code is no list of complete instructions. -/
inductive Flaw where
  | unknownByte (offset : Nat) (byte : UInt8)
  | truncated (offset : Nat) (op : Opcode)
deriving DecidableEq, Repr

/-- Checks code from `offset` on: an opcode has to stand there, all of its operands have to follow, and then the next
opcode. -/
def validateFrom (code : List UInt8) (offset : Nat) : Except Flaw Unit :=
  if h : offset < code.length then
    match Opcode.ofByte? code[offset] with
    | none => .error (.unknownByte offset code[offset])
    | some op =>
      if code.length < offset + op.size then .error (.truncated offset op)
      else validateFrom code (offset + op.size)
  else .ok ()
termination_by code.length - offset
decreasing_by
  have := op.size_pos
  omega

/-- Accepts the code of a list of instructions, and no other code. -/
def validate (code : List UInt8) : Except Flaw Unit := validateFrom code 0

end StripSequencer.Program
