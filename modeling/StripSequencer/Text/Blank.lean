import StripSequencer.Text.Glyph

/-!
# `StripSequencer.Text.Blank` — blank characters and the fields between them

A blank is a character with the Unicode property `White_Space`. A stray byte is never blank.
-/

namespace StripSequencer

/-- The characters of the Unicode property `White_Space`. -/
def isBlankChar (c : Char) : Bool :=
  let n := c.toNat
  (0x09 ≤ n && n ≤ 0x0D) || n = 0x20 || n = 0x85 || n = 0xA0 || n = 0x1680
    || (0x2000 ≤ n && n ≤ 0x200A) || n = 0x2028 || n = 0x2029 || n = 0x202F || n = 0x205F || n = 0x3000

/-- A glyph that separates fields. -/
def Glyph.isBlank : Glyph → Bool
  | .char c => isBlankChar c
  | .stray _ => false

namespace Text

/-- The maximal runs of glyphs that are not blank, in order. -/
def fields (t : Text) : List Text := (segments Glyph.isBlank t).filter (! ·.isEmpty)

/-- The text without the blanks at its two ends. -/
def trim (t : Text) : Text :=
  ((t.dropWhile Glyph.isBlank).reverse.dropWhile Glyph.isBlank).reverse

end Text

end StripSequencer
