import StripSequencer.Toml.Value

/-!
# `StripSequencer.Toml.Number` — integers, floats, dates and times

A value that starts with a digit or a sign is an integer, a float, or a date or time. The characters of a
token are taken first, and the token is checked afterwards.

## Contents
- `readNumber`: the token at the front of a text and its value.
- `integer?`, `isFloat`, `isDatetime`: the checks.
-/

namespace StripSequencer.Toml

/-! ## Underscores and leading zeros -/

/-- A hexadecimal digit. -/
def isHexDigit (c : Char) : Bool := c.isDigit || ('a' ≤ c && c ≤ 'f') || ('A' ≤ c && c ≤ 'F')

/-- Every underscore stands after a digit, and the last character is a digit. `afterDigit` says whether
the character before was one. -/
def underscoresOk (afterDigit : Bool) : List Char → Bool
  | [] => afterDigit
  | c :: rest => (c ≠ '_' || afterDigit) && underscoresOk (isHexDigit c) rest

/-- The number starts with a zero that has no business there. -/
def hasLeadingZero : List Char → Bool
  | '0' :: c :: _ => c ≠ 'b' && c ≠ 'o' && c ≠ 'x'
  | '-' :: '0' :: _ :: _ | '+' :: '0' :: _ :: _ => true
  | _ => false

/-! ## Integers -/

/-- The value of a hexadecimal digit. -/
def digitValue (c : Char) : Nat :=
  if c.isDigit then c.toNat - '0'.toNat
  else if 'a' ≤ c ∧ c ≤ 'f' then c.toNat - 'a'.toNat + 10
  else c.toNat - 'A'.toNat + 10

/-- The value of digits in a base; underscores are left out. -/
def baseValue (base : Nat) (digits : List Char) : Nat :=
  (digits.filter (· ≠ '_')).foldl (fun n c => n * base + digitValue c) 0

/-- The value of an integer token. -/
def tokenValue : List Char → Int
  | '0' :: 'b' :: digits => baseValue 2 digits
  | '0' :: 'o' :: digits => baseValue 8 digits
  | '0' :: 'x' :: digits => baseValue 16 digits
  | '-' :: digits => -(baseValue 10 digits : Int)
  | '+' :: digits => baseValue 10 digits
  | digits => baseValue 10 digits

/-- The integer of a token, if it is well written and fits in 64 bits. -/
def integer? (token : List Char) : Option Int64 :=
  let value := tokenValue token
  if underscoresOk false token && !hasLeadingZero token && Int64.minValue.toInt ≤ value
      && value ≤ Int64.maxValue.toInt then
    some (Int64.ofInt value)
  else none

/-! ## Floats -/

/-- A character that divides the parts of a float. -/
def isFloatDivider (c : Char) : Bool := c = '.' || c = 'e' || c = 'E'

/-- The parts of a float between its dividers. -/
def floatParts : List Char → List (List Char)
  | [] => [[]]
  | c :: rest =>
    if isFloatDivider c then [] :: floatParts rest
    else
      match floatParts rest with
      | [] => [[c]]
      | part :: parts => (c :: part) :: parts

/-- Every point is followed by a digit. -/
def pointsOk : List Char → Bool
  | [] => true
  | ['.'] => false
  | '.' :: c :: rest => c.isDigit && pointsOk (c :: rest)
  | _ :: rest => pointsOk rest

/-- A decimal number: its digits without the point, and the power of ten that they are multiplied by. -/
structure Decimal where
  digits : Nat
  exponent : Int

/-- Splits off a sign, and says whether it was a minus. -/
def splitSign : List Char → Bool × List Char
  | '-' :: rest => (true, rest)
  | '+' :: rest => (false, rest)
  | cs => (false, cs)

/-- The exponent of a float without underscores. -/
def exponent? : List Char → Option Int
  | [] => some 0
  | mark :: rest =>
    let (negative, digits) := splitSign rest
    if (mark = 'e' || mark = 'E') && !digits.isEmpty && digits.all Char.isDigit then
      some (if negative then -(baseValue 10 digits : Int) else baseValue 10 digits)
    else none

/-- The decimal number of a float without sign and underscores. -/
def decimal? (cs : List Char) : Option Decimal := do
  let whole := cs.takeWhile Char.isDigit
  let cs := cs.dropWhile Char.isDigit
  let (fraction, cs) :=
    match cs with
    | '.' :: rest => (rest.takeWhile Char.isDigit, rest.dropWhile Char.isDigit)
    | _ => ([], cs)
  let exponent ← exponent? cs
  if whole.isEmpty then none
  else some ⟨baseValue 10 (whole ++ fraction), exponent - fraction.length⟩

/-- The least magnitude that is too large for a 64-bit float. -/
def floatLimit : Nat := (1 <<< 1024) - (1 <<< 970)

/-- The number is below the limit. The length of its digits decides unless it is close. -/
def Decimal.isFinite (d : Decimal) : Bool :=
  let magnitude := (Nat.toDigits 10 d.digits).length + d.exponent
  if d.digits = 0 || magnitude < 308 then true
  else if 310 < magnitude then false
  else if 0 ≤ d.exponent then d.digits * Nat.pow 10 d.exponent.toNat < floatLimit
  else d.digits < floatLimit * Nat.pow 10 (-d.exponent).toNat

/-- The token is a float. -/
def isFloat (token : List Char) : Bool :=
  let parts := (floatParts token).filter (! ·.isEmpty)
  parts.all (underscoresOk false) && !(parts.head?.any hasLeadingZero) && pointsOk token
    && ((decimal? (splitSign (token.filter (· ≠ '_'))).2).any Decimal.isFinite)

/-! ## Dates and times -/

/-- The number of days of a month. -/
def daysIn (year month : Nat) : Nat :=
  if month = 2 then if year % 4 = 0 && (year % 100 ≠ 0 || year % 400 = 0) then 29 else 28
  else if month = 4 ∨ month = 6 ∨ month = 9 ∨ month = 11 then 30
  else 31

/-- Reads a number of exactly `width` digits. -/
def readFixed (width : Nat) (cs : List Char) : Option (Nat × List Char) :=
  let digits := cs.take width
  if digits.length = width && digits.all Char.isDigit then some (baseValue 10 digits, cs.drop width)
  else none

/-- Reads one given character. -/
def expect (c : Char) : List Char → Option (List Char)
  | d :: rest => if c = d then some rest else none
  | [] => none

/-- Reads a date that exists. -/
def readDate (cs : List Char) : Option (List Char) := do
  let (year, cs) ← readFixed 4 cs
  let (month, cs) ← readFixed 2 (← expect '-' cs)
  let (day, cs) ← readFixed 2 (← expect '-' cs)
  if 1 ≤ month && month ≤ 12 && 1 ≤ day && day ≤ daysIn year month then some cs else none

/-- Reads the seconds of a time, which may be left out and may have a fraction. -/
def readSeconds : List Char → Option (List Char)
  | ':' :: cs => do
    let (seconds, cs) ← readFixed 2 cs
    if 59 < seconds then none
    else
      match cs with
      | '.' :: d :: rest => if d.isDigit then some (rest.dropWhile Char.isDigit) else some cs
      | _ => some cs
  | cs => some cs

/-- Reads a time of day. -/
def readTime (cs : List Char) : Option (List Char) := do
  let (hours, cs) ← readFixed 2 cs
  let (minutes, cs) ← readFixed 2 (← expect ':' cs)
  if hours ≤ 23 && minutes ≤ 59 then readSeconds cs else none

/-- The rest of a time is an offset from universal time, or nothing. -/
def isOffset : List Char → Bool
  | [] | ['Z'] => true
  | sign :: cs =>
    (sign = '+' || sign = '-') &&
      match readFixed 2 cs with
      | some (hours, ':' :: cs) =>
        match readFixed 2 cs with
        | some (minutes, []) => hours ≤ 24 && minutes ≤ 60
        | _ => false
      | _ => false

/-- The token is a date, a time, or both with an optional offset. -/
def isDatetime (token : List Char) : Bool :=
  let cs := token.map fun c => if c = 't' || c = ' ' then 'T' else if c = 'z' then 'Z' else c
  match readDate cs with
  | some [] => true
  | some ('T' :: time) => (readTime time).any isOffset
  | some _ => false
  | none => readTime cs = some []

/-! ## Tokens -/

/-- The value of an integer token, with what follows it. -/
def integerValue (token rest : List Char) : Option (Value × List Char) :=
  (integer? token).map fun n => (.integer n, rest)

/-- Reads the rest of a float after the characters `seen`. -/
def readFloat (seen cs : List Char) : Option (Value × List Char) :=
  let isPart (c : Char) := c.isDigit || c = '_' || c = '-' || c = '+' || isFloatDivider c
  let token := seen ++ cs.takeWhile isPart
  if isFloat token then some (.float (String.ofList token), cs.dropWhile isPart) else none

/-- Reads the rest of a date or time after the characters `seen`. Blanks at its end do not belong to
it. -/
def readDatetime (seen cs : List Char) : Option (Value × List Char) :=
  let isPart (c : Char) := c.isDigit || "-:Tt .Zz+".toList.contains c
  let token := ((seen ++ cs.takeWhile isPart).reverse.dropWhile (· = ' ')).reverse
  if isDatetime token then some (.datetime (String.ofList token), cs.dropWhile isPart) else none

/-- Reads the rest of a decimal number after the characters `seen`. -/
def readDecimal (seen cs : List Char) : Option (Value × List Char) :=
  let isPart (c : Char) := c.isDigit || c = '_'
  let token := seen ++ cs.takeWhile isPart
  let rest := cs.dropWhile isPart
  if rest.head?.any isFloatDivider then readFloat token rest else integerValue token rest

/-- Reads a number or date that starts with digits. -/
def readUnsigned (cs : List Char) : Option (Value × List Char) :=
  let digits := cs.takeWhile Char.isDigit
  let rest := cs.dropWhile Char.isDigit
  match rest with
  | '-' :: _ | ':' :: _ => if digits = ['0'] then integerValue digits rest
      else readDatetime digits rest
  | _ => readDecimal digits rest

/-- Reads the digits of an integer in base two, eight or sixteen after its base mark. -/
def readBased (mark : Char) (isBaseDigit : Char → Bool) (cs : List Char) :
    Option (Value × List Char) :=
  let isPart (c : Char) := isBaseDigit c || c = '_'
  if cs.head?.any isBaseDigit then
    integerValue ('0' :: mark :: cs.takeWhile isPart) (cs.dropWhile isPart)
  else none

/-- Reads a number with a sign. -/
def readSigned (sign : Char) : List Char → Option (Value × List Char)
  | 'i' :: 'n' :: 'f' :: rest => some (.float (String.ofList [sign, 'i', 'n', 'f']), rest)
  | 'n' :: 'a' :: 'n' :: rest => some (.float (String.ofList [sign, 'n', 'a', 'n']), rest)
  | c :: rest => if c.isDigit then readDecimal [sign, c] rest else none
  | [] => none

/-- Reads a number, a date or a time. -/
def readNumber : List Char → Option (Value × List Char)
  | '0' :: 'b' :: rest => readBased 'b' (fun c => c = '0' || c = '1') rest
  | '0' :: 'o' :: rest => readBased 'o' (fun c => '0' ≤ c && c ≤ '7') rest
  | '0' :: 'x' :: rest => readBased 'x' isHexDigit rest
  | '-' :: rest => readSigned '-' rest
  | '+' :: rest => readSigned '+' rest
  | cs => readUnsigned cs

end StripSequencer.Toml
