import StripSequencer.Text.Glyph

/-!
# `StripSequencer.Text.Numeral` — numerals with a base mark and separators

A numeral is written in base ten, or in base two, eight or sixteen after `0b`, `0o` or `0x`; a leading
`0` alone also means base eight. Single underscores may separate digits, and may follow the base mark.

Digits are taken from the left, and the first one that lifts the value above the limit decides, whatever
comes after it.
-/

namespace StripSequencer.Numeral

/-- Why a token is no numeral up to the limit. -/
inductive Flaw where
  | malformed
  | outOfRange
deriving DecidableEq, Repr

/-- The words for a flaw. -/
def Flaw.message : Flaw → String
  | .malformed => "invalid syntax"
  | .outOfRange => "value out of range"

/-- The value of a digit or letter, letters counting from ten in either case. -/
def digit? : Glyph → Option Nat
  | .stray _ => none
  | .char c =>
    if '0' ≤ c ∧ c ≤ '9' then some (c.toNat - '0'.toNat)
    else if 'a' ≤ c ∧ c ≤ 'z' then some (c.toNat - 'a'.toNat + 10)
    else if 'A' ≤ c ∧ c ≤ 'Z' then some (c.toNat - 'A'.toNat + 10)
    else none

/-- The base that the letter after a leading `0` announces. -/
def markedBase? : Glyph → Option Nat
  | .char 'b' | .char 'B' => some 2
  | .char 'o' | .char 'O' => some 8
  | .char 'x' | .char 'X' => some 16
  | _ => none

/-- The base of a token and the part that holds its digits. A base mark counts only if something follows
it. -/
def split : Text → Nat × Text
  | .char '0' :: rest =>
    match rest with
    | mark :: d :: ds =>
      match markedBase? mark with
      | some base => (base, d :: ds)
      | none => (8, rest)
    | _ => (8, rest)
  | t => (10, t)

/-- Adds the digits of a token to `value`, skipping underscores. -/
def accumulate (base limit : Nat) : Nat → Text → Except Flaw Nat
  | value, [] => .ok value
  | value, g :: rest =>
    if g = .char '_' then accumulate base limit value rest
    else
      match digit? g with
      | none => .error .malformed
      | some d =>
        if base ≤ d then .error .malformed
        else if limit < value * base + d then .error .outOfRange
        else accumulate base limit (value * base + d) rest

/-- Every underscore of the rest of a numeral stands between two digits. `afterDigit` says whether a
digit (or the base mark) has just been passed. -/
def separatorsOk : Bool → Text → Bool
  | _, [] => true
  | afterDigit, g :: rest =>
    if g = .char '_' then
      match rest with
      | [] => false
      | next :: _ => afterDigit && (digit? next).isSome && separatorsOk false rest
    else separatorsOk true rest

/-- The base mark of a token, which stands for a digit where underscores are concerned. -/
def unmarked : Text → Bool × Text
  | .char '0' :: mark :: rest =>
    if (markedBase? mark).isSome then (true, rest) else (false, .char '0' :: mark :: rest)
  | t => (false, t)

/-- The value of a token, if it is a numeral that does not exceed `limit`. -/
def read (limit : Nat) (token : Text) : Except Flaw Nat :=
  if token.isEmpty then .error .malformed
  else
    let (base, digits) := split token
    match accumulate base limit 0 digits with
    | .error flaw => .error flaw
    | .ok value =>
      let (marked, body) := unmarked token
      if separatorsOk marked body then .ok value else .error .malformed

end StripSequencer.Numeral
