import StripSequencer.Fraction
import StripSequencer.Text.Quoted

/-!
# `StripSequencer.Duration` — spans of time and their text

A duration is a signed number of nanoseconds that fits in 64 bits. Its text is a sign and one or more
numbers, each with a unit, such as `1h15m30.5s`; `0` needs no unit.

## Contents
- `Duration.text`: the shortest text with the largest fitting units.
- `Duration.parse`: the duration of a text, with `Duration.Error`.
-/

namespace StripSequencer

/-- A signed number of nanoseconds. -/
structure Duration where
  nanoseconds : Int64
deriving DecidableEq, Repr

namespace Duration

/-- The nanoseconds of a microsecond. -/
def microsecond : Nat := 1000

/-- The nanoseconds of a millisecond. -/
def millisecond : Nat := 1000000

/-- The nanoseconds of a second. -/
def second : Nat := 1000000000

/-- The nanoseconds of a minute. -/
def minute : Nat := 60 * second

/-- The nanoseconds of an hour. -/
def hour : Nat := 60 * minute

/-- The duration of a number of milliseconds. -/
def ofMilliseconds (n : Nat) : Duration := ⟨Int64.ofNat (n * millisecond)⟩

/-! ## Text -/

/-- The last `places` digits of `n` as a fraction, without the zeros at its end; nothing if all are
zeros. -/
def fractionText (places n : Nat) : String :=
  let digits := Nat.toDigits 10 (n % Nat.pow 10 places)
  let padded := List.replicate (places - digits.length) '0' ++ digits
  let kept := (padded.reverse.dropWhile (· = '0')).reverse
  if kept.isEmpty then "" else "." ++ String.ofList kept

/-- `n` in a unit of `10 ^ places` of its own. -/
def scaledText (places n : Nat) : String := toString (n / Nat.pow 10 places) ++ fractionText places n

/-- The text of a number of nanoseconds. -/
def magnitudeText (n : Nat) : String :=
  if n = 0 then "0s"
  else if n < microsecond then toString n ++ "ns"
  else if n < millisecond then scaledText 3 n ++ "µs"
  else if n < second then scaledText 6 n ++ "ms"
  else
    let seconds := toString (n / second % 60) ++ fractionText 9 n ++ "s"
    if n < minute then seconds
    else if n < hour then toString (n / minute) ++ "m" ++ seconds
    else toString (n / hour) ++ "h" ++ toString (n / minute % 60) ++ "m" ++ seconds

/-- The text of a duration. -/
def text (d : Duration) : String :=
  let n := d.nanoseconds.toInt
  if n < 0 then "-" ++ magnitudeText n.natAbs else magnitudeText n.natAbs

/-! ## Reading -/

/-- Why a text is no duration. -/
inductive Error where
  | invalid (text : String)
  | missingUnit (text : String)
  | unknownUnit (unit text : String)
deriving DecidableEq, Repr

/-- The words for why a text is no duration. -/
def Error.message : Error → String
  | .invalid text => "time: invalid duration " ++ (Text.ofString text).byteQuoted
  | .missingUnit text => "time: missing unit in duration " ++ (Text.ofString text).byteQuoted
  | .unknownUnit unit text =>
    "time: unknown unit " ++ (Text.ofString unit).byteQuoted ++ " in duration "
      ++ (Text.ofString text).byteQuoted

/-- The nanoseconds of a unit; a microsecond has three spellings. -/
def unit? (name : String) : Option Nat :=
  if name = "ns" then some 1
  else if name = "us" ∨ name = "µs" ∨ name = "μs" then some microsecond
  else if name = "ms" then some millisecond
  else if name = "s" then some second
  else if name = "m" then some minute
  else if name = "h" then some hour
  else none

/-- The bound that no magnitude exceeds: the magnitude of the least duration. -/
def limit : Nat := UInt64.size / 2

/-- The value of a digit. -/
def digitValue (c : Char) : Nat := c.toNat - '0'.toNat

/-- The value of digits, which may not exceed the limit. -/
def wholePart? (digits : List Char) : Option Nat :=
  digits.foldlM (fun n c =>
    if limit < n * 10 + digitValue c then none else some (n * 10 + digitValue c)) 0

/-- The digits after a point, as a number and the power of ten that it is divided by. -/
structure Decimals where
  value : Nat := 0
  scale : Fraction := ⟨1, 1⟩
  /-- The number is full, and further digits are dropped. -/
  full : Bool := false

/-- One more digit after the point. -/
def Decimals.push (d : Decimals) (c : Char) : Decimals :=
  if d.full || (limit - 1) / 10 < d.value || limit < d.value * 10 + digitValue c then
    { d with full := true }
  else ⟨d.value * 10 + digitValue c, d.scale.mul ⟨10, 1⟩, false⟩

/-- The digits after a point. -/
def decimals (digits : List Char) : Decimals := digits.foldl Decimals.push {}

/-- The nanoseconds of a fraction of a unit. -/
def fractionPart (d : Decimals) (unit : Nat) : Nat :=
  if d.value = 0 then 0
  else ((Fraction.ofNat d.value).mul ((Fraction.ofNat unit).div d.scale)).floor

/-- A character that may begin a number. -/
def isNumberChar (c : Char) : Bool := c.isDigit || c = '.'

/-- A number with its unit, as written. -/
structure Term where
  whole : List Char
  fraction : List Char
  unit : List Char

/-- Splits a term off a text: digits, a point with digits, and all that follows up to the next
number. -/
def splitTerm (cs : List Char) : Term × List Char :=
  let whole := cs.takeWhile Char.isDigit
  let cs := cs.dropWhile Char.isDigit
  let (fraction, cs) :=
    match cs with
    | '.' :: rest => (rest.takeWhile Char.isDigit, rest.dropWhile Char.isDigit)
    | _ => ([], cs)
  (⟨whole, fraction, cs.takeWhile (! isNumberChar ·)⟩, cs.dropWhile (! isNumberChar ·))

/-- The nanoseconds of a term of `text`. -/
def Term.nanoseconds (t : Term) (text : String) : Except Error Nat :=
  match wholePart? t.whole with
  | none => .error (.invalid text)
  | some whole =>
    if t.whole.isEmpty ∧ t.fraction.isEmpty then .error (.invalid text)
    else if t.unit.isEmpty then .error (.missingUnit text)
    else
      match unit? (String.ofList t.unit) with
      | none => .error (.unknownUnit (String.ofList t.unit) text)
      | some unit =>
        let n := whole * unit + fractionPart (decimals t.fraction) unit
        if limit / unit < whole ∨ limit < n then .error (.invalid text) else .ok n

/-- Adds the terms of a text to `sum`, in unsigned 64-bit arithmetic; the first argument bounds their
number. -/
def sumTerms (text : String) : Nat → Nat → List Char → Except Error Nat
  | _, sum, [] => .ok sum
  | 0, _, _ :: _ => .error (.invalid text)
  | fuel + 1, sum, c :: cs =>
    if isNumberChar c then do
      let (term, rest) := splitTerm (c :: cs)
      let n ← term.nanoseconds text
      let sum := (sum + n) % UInt64.size
      if limit < sum then .error (.invalid text) else sumTerms text fuel sum rest
    else .error (.invalid text)

/-- Splits off a sign. -/
def splitSign : List Char → Bool × List Char
  | '-' :: rest => (true, rest)
  | '+' :: rest => (false, rest)
  | cs => (false, cs)

/-- The duration of a text. -/
def parse (text : String) : Except Error Duration :=
  let (negative, body) := splitSign text.toList
  if body = ['0'] then .ok ⟨0⟩
  else if body.isEmpty then .error (.invalid text)
  else do
    let n ← sumTerms text body.length 0 body
    if negative then return ⟨Int64.ofInt (-n)⟩
    else if limit ≤ n then .error (.invalid text)
    else return ⟨Int64.ofNat n⟩

end Duration

end StripSequencer
