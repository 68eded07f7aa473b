/-!
# `StripSequencer.Strip` — strips of pixels

A sequencer talks to a strip through calls. `Strip.Memory` keeps a frame and records the calls;
`Strip.Terminal` draws its frame as a row of blocks.
-/

namespace StripSequencer.Strip

/-- The colour of a pixel. -/
structure Color where
  red : UInt8 := 0
  green : UInt8 := 0
  blue : UInt8 := 0
deriving DecidableEq, Repr, Inhabited

/-- Black, the colour of a blank pixel. -/
def Color.black : Color := {}

/-- A call on a strip. -/
inductive Call where
  | clear
  | setPixel (index : UInt8) (color : Color)
deriving DecidableEq, Repr

/-- A call as text. -/
def Call.text : Call → String
  | .clear => "clear"
  | .setPixel index color =>
    "set " ++ toString index.toNat ++ " (" ++ toString color.red.toNat ++ ","
      ++ toString color.green.toNat ++ "," ++ toString color.blue.toNat ++ ")"

/-- The frame after a call. Writes past its end are dropped. -/
def draw (frame : Array Color) : Call → Array Color
  | .clear => frame.map fun _ => .black
  | .setPixel index color => frame.setIfInBounds index.toNat color

/-- A call that writes past the end of a frame of `size` pixels. -/
def Call.isBeyond (size : Nat) : Call → Bool
  | .clear => false
  | .setPixel index _ => size ≤ index.toNat

/-! ## A strip that records its calls -/

/-- A frame with the calls made on it and the number of writes past its end. -/
structure Memory where
  pixels : Array Color
  calls : Array Call := #[]
  outOfRange : Nat := 0
deriving Repr

namespace Memory

/-- A blank frame of `n` pixels. -/
def blank (n : Nat) : Memory := ⟨Array.replicate n .black, #[], 0⟩

/-- Makes a call. -/
def call (m : Memory) (c : Call) : Memory where
  pixels := draw m.pixels c
  calls := m.calls.push c
  outOfRange := if c.isBeyond m.pixels.size then m.outOfRange + 1 else m.outOfRange

/-- Makes calls in order. -/
def callAll (m : Memory) (calls : Array Call) : Memory := calls.foldl call m

/-- Forgets the calls, and keeps the frame. -/
def reset (m : Memory) : Memory := { m with calls := #[], outOfRange := 0 }

end Memory

/-! ## A strip that is drawn on a terminal -/

/-- A frame that is drawn when it was called since it was last drawn. -/
structure Terminal where
  pixels : Array Color
  dirty : Bool := false
deriving Repr

namespace Terminal

/-- A blank frame of `n` pixels that needs no drawing. -/
def blank (n : Nat) : Terminal := ⟨Array.replicate n .black, false⟩

/-- Makes a call. -/
def call (t : Terminal) (c : Call) : Terminal := ⟨draw t.pixels c, true⟩

/-- Makes calls in order. -/
def callAll (t : Terminal) (calls : Array Call) : Terminal := calls.foldl call t

/-- A pixel as a block if it is lit, and as a dot if not. -/
def block (c : Color) : Char := if c = .black then '·' else '█'

/-- The frame as a row of blocks. -/
def line (t : Terminal) : String := String.ofList (t.pixels.toList.map block)

/-- The text that draws the frame over the row before, and the strip after it. Nothing is drawn if there
was no call. -/
def render (t : Terminal) : String × Terminal :=
  if t.dirty then ("\r" ++ t.line, { t with dirty := false }) else ("", t)

end Terminal

end StripSequencer.Strip
