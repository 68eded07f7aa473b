/-!
# `StripSequencer.Text.Folding` — names that are equal up to case

The names that are looked up this way consist of ASCII characters. Besides the ASCII letters, the long s
and the Kelvin sign are equal up to case to such a letter.
-/

namespace StripSequencer

/-- The letter that stands for all letters equal to it up to case. -/
def foldedChar (c : Char) : Char :=
  if c.toNat = 0x17F then 's' else if c.toNat = 0x212A then 'k' else c.toLower

/-- Two names are equal up to case. -/
def sameName (a b : String) : Bool := a.toList.map foldedChar = b.toList.map foldedChar

end StripSequencer
