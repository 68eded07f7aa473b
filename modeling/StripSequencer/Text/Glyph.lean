/-!
# `StripSequencer.Text.Glyph` — text that need not be valid UTF-8

Program sources, documents and file contents arrive as bytes. A text is the list of its glyphs: each
glyph is a Unicode scalar value, or a byte that belongs to no valid UTF-8 sequence.

## Contents
- `Glyph`, `Text`, and the passage between bytes and texts: `Text.ofBytes`, `Text.bytes`.
- `Text.ofString` and `Text.display` for texts that come from, or go to, a `String`.
- `segments`: a list cut at the elements that satisfy a test.
-/

namespace StripSequencer

/-- One character of a text: a Unicode scalar value, or a byte that is part of none. -/
inductive Glyph where
  | char (c : Char)
  | stray (b : UInt8)
deriving DecidableEq, Repr

/-- A text is the list of its glyphs. -/
abbrev Text := List Glyph

namespace Utf8

/-- `b` may follow the first byte of a sequence: `10xxxxxx`. -/
def isTail (b : UInt8) : Bool := 0x80 ≤ b && b ≤ 0xBF

/-- The second bytes allowed after the first byte `b` of a sequence of three or four bytes. Surrogates,
values above `0x10FFFF` and overlong forms are ruled out here. -/
def isSecond (b c : UInt8) : Bool :=
  if b = 0xE0 then 0xA0 ≤ c && c ≤ 0xBF
  else if b = 0xED then 0x80 ≤ c && c ≤ 0x9F
  else if b = 0xF0 then 0x90 ≤ c && c ≤ 0xBF
  else if b = 0xF4 then 0x80 ≤ c && c ≤ 0x8F
  else isTail c

/-- The scalar value of a two-byte sequence. -/
def value2 (b c : UInt8) : Nat := (b.toNat - 0xC0) * 64 + (c.toNat - 0x80)

/-- The scalar value of a three-byte sequence. -/
def value3 (b c d : UInt8) : Nat :=
  (b.toNat - 0xE0) * 4096 + (c.toNat - 0x80) * 64 + (d.toNat - 0x80)

/-- The scalar value of a four-byte sequence. -/
def value4 (b c d e : UInt8) : Nat :=
  (b.toNat - 0xF0) * 262144 + (c.toNat - 0x80) * 4096 + (d.toNat - 0x80) * 64 + (e.toNat - 0x80)

/-- Reads the glyph that starts with `b`, and gives back what follows it. A byte that starts no valid
sequence stands for itself, and reading goes on with the byte after it. -/
def read (b : UInt8) (rest : List UInt8) : Glyph × List UInt8 :=
  if b < 0x80 then (.char (Char.ofNat b.toNat), rest)
  else if 0xC2 ≤ b && b ≤ 0xDF then
    match rest with
    | c :: rest' => if isTail c then (.char (Char.ofNat (value2 b c)), rest') else (.stray b, rest)
    | [] => (.stray b, [])
  else if 0xE0 ≤ b && b ≤ 0xEF then
    match rest with
    | c :: d :: rest' =>
      if isSecond b c && isTail d then (.char (Char.ofNat (value3 b c d)), rest')
      else (.stray b, rest)
    | _ => (.stray b, rest)
  else if 0xF0 ≤ b && b ≤ 0xF4 then
    match rest with
    | c :: d :: e :: rest' =>
      if isSecond b c && isTail d && isTail e then (.char (Char.ofNat (value4 b c d e)), rest')
      else (.stray b, rest)
    | _ => (.stray b, rest)
  else (.stray b, rest)

/-- Reading a glyph uses at least its first byte. -/
theorem read_length_le (b : UInt8) (rest : List UInt8) : (read b rest).2.length ≤ rest.length := by
  unfold read
  split
  · exact Nat.le_refl _
  · split
    · split
      · split <;> simp
      · simp
    · split
      · split
        · split
          · simp only [List.length_cons]; omega
          · exact Nat.le_refl _
        · exact Nat.le_refl _
      · split
        · split
          · split
            · simp only [List.length_cons]; omega
            · exact Nat.le_refl _
          · exact Nat.le_refl _
        · exact Nat.le_refl _

end Utf8

namespace Text

/-- The text that a sequence of bytes spells. -/
def ofBytes : List UInt8 → Text
  | [] => []
  | b :: rest => (Utf8.read b rest).1 :: ofBytes (Utf8.read b rest).2
termination_by bytes => bytes.length
decreasing_by
  have h := Utf8.read_length_le b rest
  simp only [List.length_cons]
  omega

/-- The text of a string. -/
def ofString (s : String) : Text := s.toList.map .char

instance : Coe String Text := ⟨ofString⟩

end Text

/-- The character that a glyph is, if it is one. -/
def Glyph.char? : Glyph → Option Char
  | .char c => some c
  | .stray _ => none

/-- The bytes of a glyph. -/
def Glyph.bytes : Glyph → List UInt8
  | .char c => String.utf8EncodeChar c
  | .stray b => [b]

namespace Text

/-- The bytes that spell a text. -/
def bytes (t : Text) : List UInt8 := t.flatMap Glyph.bytes

/-- A text as a string; a stray byte shows as the replacement character. -/
def display (t : Text) : String :=
  String.ofList (t.map fun g => g.char?.getD (Char.ofNat 0xFFFD))

/-- The text as a string, if it holds no stray byte. -/
def toString? (t : Text) : Option String := (t.mapM Glyph.char?).map String.ofList

end Text

/-- Cuts a list at every element that satisfies `p`. There is one more segment than there are cuts,
and the segments hold the other elements in order. -/
def segments {α : Type} (p : α → Bool) : List α → List (List α)
  | [] => [[]]
  | x :: xs =>
    if p x then [] :: segments p xs
    else
      match segments p xs with
      | [] => [[x]]
      | s :: ss => (x :: s) :: ss

/-- The lines of a text, without the line feeds between them. -/
def Text.lines (t : Text) : List Text := segments (· = .char '\n') t

end StripSequencer
