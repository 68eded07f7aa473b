import StripSequencer.Refusal

/-!
# `StripSequencer.Store` — a program buffer of fixed capacity

The buffer holds a program from its first byte on. The program ends at the first byte that starts no
complete instruction: the terminator, or the end of a full buffer. Bytes after the end are what earlier
programs left there.

## Contents
- `Store` and its readings: `walk`, `extent`, `program`, `leading`.
- `terminate`, `reset`.
- `InPlace.append`, `InPlace.place`, `InPlace.load`: the operations that can be refused, statement by statement;
  `append`, `load`: what they come to.
-/

namespace StripSequencer

/-- A program buffer, with the number of bytes that appends may still take. -/
structure Store where
  code : List UInt8
  remaining : Nat
deriving DecidableEq, Repr

/-- `code` with `bytes` written over it from `offset` on. -/
def overwrite (code : List UInt8) (offset : Nat) (bytes : List UInt8) : List UInt8 :=
  code.take offset ++ bytes ++ code.drop (offset + bytes.length)

/-- What an operation in place comes to: the state that it leaves, or why it failed. -/
def outcome {ε σ α : Type} (op : EStateM ε σ α) (s : σ) : Except ε σ :=
  match op s with
  | .ok _ t => .ok t
  | .error e _ => .error e

namespace Store

/-- The default size of a buffer. -/
def defaultCapacity : Nat := 2500

/-- An empty store; a negative capacity counts as zero. -/
def empty (capacity : Int) : Store := ⟨List.replicate capacity.toNat terminator, capacity.toNat⟩

/-- The size of the buffer. -/
def capacity (s : Store) : Nat := s.code.length

/-- The buffer starts with a terminator, or has no byte. -/
def isEmpty (s : Store) : Bool :=
  match s.code with
  | [] => true
  | b :: _ => b = terminator

/-- The store with the program cut to nothing. -/
def reset (s : Store) : Store := ⟨s.code.set 0 terminator, s.capacity⟩

/-! ## Reading -/

/-- The instructions of `code`, which starts at `offset`, at most as many as the first argument says. -/
def visit : Nat → Nat → List UInt8 → List (Nat × Instruction)
  | 0, _, _ => []
  | bound + 1, offset, code =>
    match Instruction.read? code with
    | none => []
    | some (i, rest) => (offset, i) :: visit bound (offset + i.size) rest

/-- The instructions of the program with their offsets. A walk takes at most one step for each byte of
the buffer. -/
def walk (s : Store) : List (Nat × Instruction) := visit s.capacity 0 s.code

/-- The length of the program: the offset after the last instruction. -/
def extent (s : Store) : Nat :=
  match s.walk.getLast? with
  | none => 0
  | some (offset, i) => offset + i.size

/-- The first `n` bytes of the buffer, or all of them. -/
def leading (s : Store) (n : Int) : List UInt8 := s.code.take n.toNat

/-- The code of the program, without the terminator. -/
def program (s : Store) : List UInt8 := s.leading s.extent

/-- The word at an offset, with the number of bytes of its instruction. -/
def wordAt (s : Store) (offset : Int) : Word × Nat := Word.readAt s.code offset

/-! ## Writing -/

/-- Writes a terminator at `offset`, if that is inside the buffer. -/
def terminate (s : Store) (offset : Int) : Option Store :=
  if offset < 0 ∨ (s.capacity : Int) ≤ offset then none
  else some { s with code := s.code.set offset.toNat terminator }

/-! ### In place

Operations that can be refused work on the store statement by statement. What they leave of it is there also where
they stop. -/

namespace InPlace

/-- What breaks an append off: bytes are to be written from an offset on that lies outside the buffer. -/
structure Fault where
  offset : Int64
  capacity : Nat
deriving DecidableEq, Repr

/-- The words for a fault. -/
def Fault.message (f : Fault) : String :=
  "runtime error: slice bounds out of range [" ++ toString f.offset.toInt ++ ":" ++ toString f.capacity ++ "]"

/-- Writes the bytes of `i` from `offset` on, and takes them off what remains. -/
def write {ε : Type} (offset : Nat) (i : Instruction) : EStateM ε Store Unit := do
  modify fun s => { s with code := overwrite s.code offset i.encode }
  modify fun s => { s with remaining := s.remaining - i.size }

/-- Writes the instruction of a word at a signed 64-bit offset. Gives the offset to go on from, and why nothing was
written, if nothing was. The end of the instruction is computed in signed 64-bit arithmetic, which wraps. -/
def append (offset : Int64) (w : Word) : EStateM Fault Store (Int64 × Option Refusal) :=
  match w.instruction? with
  | none => return (offset, some (.notAnInstruction w.tag))
  | some i => do
    let s ← get
    let next := offset + Int64.ofNat i.size
    if s.remaining < i.size ∨ offset < 0 ∨ (s.capacity : Int) < next.toInt then
      return (offset, some (.noRoom i.opcode s.remaining))
    else if (s.capacity : Int) < offset.toInt then throw ⟨offset, s.capacity⟩
    else do
      write offset.toInt.toNat i
      return (next, none)

/-- Writes `i` at `offset`, and nothing after it, if it fits in the buffer and in what remains. -/
def place (offset : Nat) (i : Instruction) : EStateM Refusal Store Unit := do
  let s ← get
  if s.remaining < i.size ∨ s.capacity < offset + i.size then throw (.noRoom i.opcode s.remaining)
  else write offset i

/-- Replaces the program by `code`, which has to fit and to be a list of complete instructions. A terminator follows
it unless it fills the buffer. -/
def load (code : List UInt8) : EStateM Refusal Store Unit := do
  let s ← get
  if s.capacity < code.length then throw (.tooLong code.length s.capacity)
  else
    match Program.validate code with
    | .error flaw => throw (.corrupt flaw)
    | .ok () => do
      modify fun s => { s with code := overwrite s.code 0 code }
      modify fun s => (s.terminate code.length).getD s
      modify fun s => { s with remaining := s.capacity - code.length }

end InPlace

/-! ### Outcomes -/

/-- What loading a program comes to. -/
def load (s : Store) (code : List UInt8) : Except Refusal Store := outcome (InPlace.load code) s

/-- What an append at a signed offset comes to. -/
inductive Appended where
  /-- The instruction was written, and ends at `next`. -/
  | written (store : Store) (next : Int64)
  | refused (why : Refusal)
  /-- The end of the instruction overflows the signed range, so the check lets the offset pass although
  it lies outside the buffer. -/
  | outside (offset : Int64)
deriving DecidableEq, Repr

/-- What an append comes to. -/
def append (s : Store) (offset : Int64) (w : Word) : Appended :=
  match InPlace.append offset w s with
  | .ok (next, none) s' => .written s' next
  | .ok (_, some why) _ => .refused why
  | .error fault _ => .outside fault.offset

end Store

end StripSequencer
