/-!
# `StripSequencer.Text.Hexadecimal` — numbers in base sixteen with leading zeros

Listings and messages write bytes with two digits and offsets with four; a larger number takes as many
digits as it needs.
-/

namespace StripSequencer.Hexadecimal

/-- The digits of `n`, at least `width` of them, in lower case. -/
def digits (width n : Nat) : List Char :=
  let ds := Nat.toDigits 16 n
  List.replicate (width - ds.length) '0' ++ ds

/-- `n` with at least `width` digits in lower case. -/
def lower (width n : Nat) : String := String.ofList (digits width n)

/-- `n` with at least `width` digits in upper case. -/
def upper (width n : Nat) : String := String.ofList ((digits width n).map Char.toUpper)

/-- A byte as two digits in upper case. -/
def byte (b : UInt8) : String := upper 2 b.toNat

/-- An offset into a program, as four digits in upper case. -/
def offset (n : Nat) : String := upper 4 n

end StripSequencer.Hexadecimal
