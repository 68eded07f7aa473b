import StripSequencer.Sequencer

/-!
# `StripSequencer.Listing` — programs and sequencers as text

A listing has one row for each instruction, with its offset in hexadecimal. `disassemble` lists code;
`Sequencer.listing` lists the program of a sequencer under its state, with a mark where playback stands.
-/

namespace StripSequencer

namespace Listing

/-- A row of a listing. -/
structure Row where
  offset : Nat
  marked : Bool := false
  content : String
deriving DecidableEq, Repr

/-- A row as text. -/
def Row.text (r : Row) : String :=
  Hexadecimal.offset r.offset ++ (if r.marked then "> " else "  ") ++ r.content ++ "\n"

/-- Decodes the instructions of `code` from `offset` on, as far as they go. Gives their rows, of which the one at offset
`mark` is marked, and the offset at which decoding stops. -/
def rowsFrom (code : List UInt8) (mark : Option Nat) (offset : Nat) : List Row × Nat :=
  if offset < code.length then
    let (w, size) := Word.readAt code offset
    if size = 0 then ([], offset)
    else
      let (rows, stop) := rowsFrom code mark (offset + size)
      (⟨offset, mark = some offset, w.text⟩ :: rows, stop)
  else ([], offset)
termination_by code.length - offset

/-- The rows of the instructions at the front of `code`; the row at offset `mark` is marked. -/
def rows (code : List UInt8) (mark : Option Nat) : List Row := (rowsFrom code mark 0).1

/-- The offset at which the rows of `code` stop. -/
def stop (code : List UInt8) (mark : Option Nat) : Nat := (rowsFrom code mark 0).2

/-- The row for the byte at which decoding `code` stops, if it stops before the end. -/
def stopRow? (code : List UInt8) : Option Row :=
  code[stop code none]?.map fun b =>
    { offset := stop code none
      content :=
        match Opcode.ofByte? b with
        | some op => "<truncated " ++ op.name ++ ">"
        | none => Opcode.nameOfByte b }

/-- The text of rows. -/
def render (rows : List Row) : String := String.join (rows.map Row.text)

/-- The rows of code: its instructions and the byte that starts none. -/
def disassembly (code : List UInt8) : List Row := rows code none ++ (stopRow? code).toList

/-- Code as text, one instruction a row. -/
def disassemble (code : List UInt8) : String := render (disassembly code)

end Listing

namespace Sequencer

/-- The lines of a listing above its rows. -/
def listingHeader (s : Snapshot) : String :=
  "; mode: " ++ s.mode.name ++ "\n"
    ++ "; program: " ++ toString s.length ++ " bytes, " ++ toString s.remaining ++ " of "
    ++ toString s.capacity ++ " free\n"
    ++ (if s.mode = .commandEntry then "; append cursor: " ++ Hexadecimal.offset s.appendCursor
      else "; play cursor: " ++ Hexadecimal.offset s.playCursor ++ ", delay: "
        ++ toString s.delay.toNat)
    ++ "\n\n"

/-- The offset that a listing marks: where playback stands, unless a program is being entered. -/
def mark? (s : Sequencer) : Option Nat :=
  if s.mode = .commandEntry then none else some s.position.cursor

/-- The row of a listing after its instructions. -/
def finalRow (s : Sequencer) : Listing.Row :=
  let offset := Listing.stop s.program s.mark?
  { offset
    marked := s.mark? = some offset
    content :=
      if s.mode = .commandEntry then "<append>"
      else if offset < s.store.capacity then Opcode.nameOfByte terminator
      else "<end of buffer>" }

/-- The rows of a listing. -/
def listingRows (s : Sequencer) : List Listing.Row :=
  Listing.rows s.program s.mark? ++ [s.finalRow]

/-- The state and the program of a sequencer as text. -/
def listing (s : Sequencer) : String := listingHeader s.snapshot ++ Listing.render s.listingRows

end Sequencer

end StripSequencer
