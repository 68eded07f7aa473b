import StripSequencer.Cbor.Item

/-!
# `StripSequencer.Cbor.Reader` — data items from bytes

The reader accepts every well-formed item, with definite or indefinite lengths, up to limits on nesting
and on the number of elements.

## Contents
- `Flaw`: why bytes are no acceptable item, or an item has not the wanted form.
- `Head`, `readHead`.
- `readItem`: the item at the front of some bytes; `decode`: bytes that are one item.
-/

namespace StripSequencer.Cbor

/-- Why bytes cannot be decoded. -/
inductive Flaw where
  /-- There is no byte. -/
  | empty
  /-- The bytes end inside an item. -/
  | truncated
  /-- A byte that cannot stand where it stands. -/
  | malformed
  /-- Items are nested too deeply. -/
  | nesting
  /-- `count` bytes follow the item, from `index` on. -/
  | extraneous (count index : Nat)
  /-- A length or count above the limits. -/
  | oversized
  /-- A tag on content that it does not go with. -/
  | misplacedTag
  /-- An item of another type than the one asked for. -/
  | mismatch
  /-- Text that is not UTF-8. -/
  | invalidText
deriving DecidableEq, Repr

/-- The words for a flaw. -/
def Flaw.message : Flaw → String
  | .empty => "EOF"
  | .truncated => "unexpected EOF"
  | .malformed => "cbor: malformed data item"
  | .nesting => "cbor: exceeded max nested level 32"
  | .extraneous count index =>
    "cbor: " ++ toString count ++ " bytes of extraneous data starting at index " ++ toString index
  | .oversized => "cbor: length is too large"
  | .misplacedTag => "cbor: tag content of the wrong type"
  | .mismatch => "cbor: cannot unmarshal item of this type"
  | .invalidText => "cbor: invalid UTF-8 string"

/-- The deepest nesting of arrays, maps and tags inside tags. -/
def maxDepth : Nat := 32

/-- The largest number of elements of an array or pairs of a map. -/
def maxCount : Nat := 131072

/-! ## Heads -/

/-- A head: its major type, the lower five bits of its first byte, and its number. -/
structure Head where
  major : Major
  info : Nat
  value : Nat
deriving DecidableEq, Repr

/-- The head announces items up to a break. -/
def Head.isIndefinite (h : Head) : Bool := h.info = 31

/-- The byte that ends a list of items of indefinite length. -/
def breakByte : UInt8 := 0xFF

/-- The number that bytes spell, the highest byte first. -/
def bigEndianValue (bytes : List UInt8) : Nat := bytes.foldl (fun n b => n * 256 + b.toNat) 0

/-- Splits off the first `n` bytes. -/
def splitBytes (n : Nat) (data : List UInt8) : Except Flaw (List UInt8 × List UInt8) :=
  if data.length < n then .error .truncated else .ok (data.splitAt n)

/-- Reads the number of a head from the `width` bytes after its first byte. -/
def readWide (major : Major) (info width : Nat) (data : List UInt8) :
    Except Flaw (Head × List UInt8) := do
  let (number, rest) ← splitBytes width data
  return (⟨major, info, bigEndianValue number⟩, rest)

/-- Reads a head. A break counts as malformed here. -/
def readHead : List UInt8 → Except Flaw (Head × List UInt8)
  | [] => .error .truncated
  | b :: rest =>
    let major := Major.ofByte b
    let info := b.toNat % 32
    if info < 24 then .ok (⟨major, info, info⟩, rest)
    else if info = 24 then do
      let (head, rest) ← readWide major info 1 rest
      if major = .other ∧ head.value < 32 then .error .malformed else .ok (head, rest)
    else if info = 25 then readWide major info 2 rest
    else if info = 26 then readWide major info 4 rest
    else if info = 27 then readWide major info 8 rest
    else if info = 31 ∧ (major = .bytes ∨ major = .text ∨ major = .array ∨ major = .map) then
      .ok (⟨major, info, info⟩, rest)
    else .error .malformed

/-- The length of a string that a head announces, if it can be one. -/
def checkLength (h : Head) : Except Flaw Nat :=
  if UInt64.size / 2 ≤ h.value then .error .oversized else .ok h.value

/-- The count that a head announces, if it is within the limit. -/
def checkCount (h : Head) : Except Flaw Nat :=
  if maxCount < h.value then .error .oversized else .ok h.value

/-! ## Items -/

/-- Reads the chunks of a string up to the break; `seen` holds the chunks so far, last first. Chunks have
the string's own type and a definite length. -/
def readChunks (major : Major) : Nat → List (List UInt8) → List UInt8 →
    Except Flaw (List (List UInt8) × List UInt8)
  | 0, _, _ => .error .truncated
  | _ + 1, _, [] => .error .truncated
  | fuel + 1, seen, b :: rest =>
    if b = breakByte then .ok (seen.reverse, rest)
    else if Major.ofByte b ≠ major ∨ b.toNat % 32 = 31 then .error .malformed
    else do
      let (head, rest) ← readHead (b :: rest)
      let length ← checkLength head
      let (chunk, rest) ← splitBytes length rest
      readChunks major fuel (chunk :: seen) rest

/-- Reads the chunks of the string whose head is `h`. -/
def readString (fuel : Nat) (h : Head) (rest : List UInt8) :
    Except Flaw (List (List UInt8) × List UInt8) :=
  if h.isIndefinite then readChunks h.major fuel [] rest
  else do
    let length ← checkLength h
    let (chunk, rest) ← splitBytes length rest
    return ([chunk], rest)

/-- The item of a head of the last major type. -/
def Item.ofOther (h : Head) : Item :=
  if h.info = 25 then .float 2 h.value
  else if h.info = 26 then .float 4 h.value
  else if h.info = 27 then .float 8 h.value
  else .simple h.value

mutual

/-- Reads an item at a nesting depth. `inTag` says that the item is a tag's content: a tag there counts
as nested. The first argument bounds the depth of the calls. -/
def readItem : Nat → (depth : Nat) → (inTag : Bool) → List UInt8 → Except Flaw (Item × List UInt8)
  | 0, _, _, _ => .error .truncated
  | fuel + 1, depth, inTag, data => do
    let (head, rest) ← readHead data
    match head.major with
    | .unsigned => return (.unsigned head.value, rest)
    | .negative => return (.negative head.value, rest)
    | .bytes =>
      let (chunks, rest) ← readString fuel head rest
      return (.bytes chunks, rest)
    | .text =>
      let (chunks, rest) ← readString fuel head rest
      return (.text chunks, rest)
    | .array =>
      if maxDepth ≤ depth then .error .nesting
      else if head.isIndefinite then do
        let (items, rest) ← readUntilBreak fuel (depth + 1) maxCount [] rest
        return (.array items, rest)
      else do
        let (items, rest) ← readItems fuel (depth + 1) (← checkCount head) [] rest
        return (.array items, rest)
    | .map =>
      if maxDepth ≤ depth then .error .nesting
      else if head.isIndefinite then do
        let (items, rest) ← readUntilBreak fuel (depth + 1) (2 * maxCount + 1) [] rest
        if items.length % 2 = 1 then .error .malformed else return (.map items, rest)
      else do
        let (items, rest) ← readItems fuel (depth + 1) (2 * (← checkCount head)) [] rest
        return (.map items, rest)
    | .tag =>
      let depth := if inTag then depth + 1 else depth
      if maxDepth < depth then .error .nesting
      else do
        let (content, rest) ← readItem fuel depth true rest
        return (.tag head.value content, rest)
    | .other => return (.ofOther head, rest)

/-- Reads `count` items; `seen` holds the items so far, last first. -/
def readItems : Nat → (depth count : Nat) → List Item → List UInt8 →
    Except Flaw (List Item × List UInt8)
  | 0, _, _, _, _ => .error .truncated
  | _ + 1, _, 0, seen, data => .ok (seen.reverse, data)
  | fuel + 1, depth, count + 1, seen, data => do
    let (item, rest) ← readItem fuel depth false data
    readItems fuel depth count (item :: seen) rest

/-- Reads items up to the break, at most `limit` of them; `seen` holds the items so far, last first. -/
def readUntilBreak : Nat → (depth limit : Nat) → List Item → List UInt8 →
    Except Flaw (List Item × List UInt8)
  | 0, _, _, _, _ => .error .truncated
  | _ + 1, _, _, _, [] => .error .truncated
  | fuel + 1, depth, limit, seen, b :: rest =>
    if b = breakByte then .ok (seen.reverse, rest)
    else do
      let (item, rest) ← readItem fuel depth false (b :: rest)
      if limit = 0 then .error .oversized
      else readUntilBreak fuel depth (limit - 1) (item :: seen) rest

end

/-- The item that bytes spell, if they spell one and nothing else. -/
def decode (data : List UInt8) : Except Flaw Item :=
  if data.isEmpty then .error .empty
  else do
    let (item, rest) ← readItem (2 * data.length + 2) 0 false data
    if rest.isEmpty then return item
    else .error (.extraneous rest.length (data.length - rest.length))

end StripSequencer.Cbor
