import StripSequencer.Text.Hexadecimal

/-!
# `StripSequencer.Opcode` — the four kinds of instruction

An instruction starts with the byte of its opcode and goes on with a fixed number of operand bytes. The
byte `0` ends a program and starts no instruction.
-/

namespace StripSequencer

/-- The kinds of instruction. -/
inductive Opcode where
  | clear
  | pixel
  | delay
  | all
deriving DecidableEq, Repr

/-- The byte that ends a program. -/
def terminator : UInt8 := 0

namespace Opcode

/-- Every opcode, in the order of their bytes. -/
def every : List Opcode := [.clear, .pixel, .delay, .all]

/-- The byte of an opcode. -/
def code : Opcode → UInt8
  | .clear => 1
  | .pixel => 2
  | .delay => 3
  | .all => 4

/-- The opcode of a byte, if it has one. -/
def ofByte? (b : UInt8) : Option Opcode :=
  if b = 1 then some .clear
  else if b = 2 then some .pixel
  else if b = 3 then some .delay
  else if b = 4 then some .all
  else none

/-- The name of an opcode in messages. -/
def name : Opcode → String
  | .clear => "CLEAR_STRIP"
  | .pixel => "SET_PIXEL"
  | .delay => "DELAY"
  | .all => "SET_ALL_PIXELS"

/-- The word for an opcode in program text. -/
def mnemonic : Opcode → String
  | .clear => "clear"
  | .pixel => "pixel"
  | .delay => "delay"
  | .all => "all"

/-- What the operands of an opcode stand for, in order. -/
def operandNames : Opcode → List String
  | .clear => []
  | .pixel => ["index", "red", "green", "blue"]
  | .delay => ["ticks"]
  | .all => ["red", "green", "blue"]

/-- The number of operand bytes. -/
def operandCount : Opcode → Nat
  | .clear => 0
  | .pixel => 4
  | .delay => 1
  | .all => 3

/-- The number of bytes of a whole instruction. -/
def size (op : Opcode) : Nat := 1 + op.operandCount

theorem size_pos (op : Opcode) : 0 < op.size := by
  unfold size
  omega

/-- A byte outside the enumeration it is read in. -/
def unknownName (b : UInt8) : String := "UNKNOWN(0x" ++ Hexadecimal.byte b ++ ")"

/-- The name of a byte that stands where an opcode is expected. -/
def nameOfByte (b : UInt8) : String :=
  match ofByte? b with
  | some op => op.name
  | none => if b = terminator then "END" else unknownName b

/-- The opcode of `op`'s byte is `op`. -/
@[simp] theorem ofByte?_code (op : Opcode) : ofByte? op.code = some op := by
  cases op <;> rfl

/-- A byte with an opcode is that opcode's byte. -/
theorem code_of_ofByte? {b : UInt8} {op : Opcode} (h : ofByte? b = some op) : op.code = b := by
  unfold ofByte? at h
  split at h
  · next hb => cases h; exact hb.symm
  · split at h
    · next hb => cases h; exact hb.symm
    · split at h
      · next hb => cases h; exact hb.symm
      · split at h
        · next hb => cases h; exact hb.symm
        · cases h

end Opcode

end StripSequencer
