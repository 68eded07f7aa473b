import StripSequencer.Cbor.Reader
import StripSequencer.Text.Glyph

/-!
# `StripSequencer.Cbor.Value` — items as integers, texts and bytes

A field of a record is decoded from an item of a fitting type. `null` and `undefined` stand for the
field's zero value, tags are looked through, and a big number counts as an integer.
-/

namespace StripSequencer.Cbor

/-- The tag that only says that its content is CBOR. -/
def selfDescribedTag : Nat := 55799

/-- Content that a tag goes with: a text for a date, a number for a time, bytes for a big number. -/
def tagFits (number : Nat) (content : Item) : Bool :=
  match number, content with
  | 0, .text _ => true
  | 0, _ => false
  | 1, .unsigned _ | 1, .negative _ | 1, .float .. => true
  | 1, _ => false
  | 2, .bytes _ | 3, .bytes _ => true
  | 2, _ | 3, _ => false
  | _, _ => true

/-- The item under its tags, the tags of big numbers apart. -/
def Item.untagged : Item → Except Flaw Item
  | .tag number content =>
    if number = selfDescribedTag then content.untagged
    else if tagFits number content then
      if number = 2 ∨ number = 3 then .ok (.tag number content) else content.untagged
    else .error .misplacedTag
  | item => .ok item

/-- The item is `null` or `undefined`. -/
def Item.isNull : Item → Bool
  | .simple 22 | .simple 23 => true
  | _ => false

/-- The integer that an untagged item stands for, if it stands for one. -/
def Item.integer? : Item → Option Int
  | .unsigned n => some n
  | .negative n => some (-1 - n)
  | .simple n => if 20 ≤ n ∧ n ≤ 23 then none else some n
  | .tag 2 (.bytes chunks) => some (bigEndianValue chunks.flatten)
  | .tag 3 (.bytes chunks) => some (-1 - (bigEndianValue chunks.flatten : Int))
  | _ => none

/-- The text of chunks, each of which has to be UTF-8. -/
def decodeChunks (chunks : List (List UInt8)) : Except Flaw String :=
  match chunks.mapM fun chunk => (Text.ofBytes chunk).toString? with
  | some parts => .ok (String.join parts)
  | none => .error .invalidText

/-- The flaw of an item of the wrong type. Text is read before it is found to be of the wrong type. -/
def Item.mismatch : Item → Flaw
  | .text chunks =>
    match decodeChunks chunks with
    | .ok _ => .mismatch
    | .error flaw => flaw
  | _ => .mismatch

/-- The integer of an item, which has to lie between two bounds; `null` counts as zero. -/
def Item.decodeInt (low high : Int) (item : Item) : Except Flaw Int := do
  let item ← item.untagged
  if item.isNull then return 0
  match item.integer? with
  | none => .error item.mismatch
  | some n => if low ≤ n ∧ n ≤ high then .ok n else .error .mismatch

/-- The text of an item; `null` counts as no text. -/
def Item.decodeText (item : Item) : Except Flaw String := do
  match ← item.untagged with
  | .text chunks => decodeChunks chunks
  | item => if item.isNull then .ok "" else .error .mismatch

/-- The bytes of an item: a byte string, a big number's bytes or an array of bytes; none for `null`. -/
def Item.decodeBytes (item : Item) : Except Flaw (Option (List UInt8)) := do
  match ← item.untagged with
  | .bytes chunks => return some chunks.flatten
  | .tag _ (.bytes chunks) => return some chunks.flatten
  | .array items =>
    let values ← items.mapM (decodeInt 0 255)
    return some (values.map fun n => UInt8.ofNat n.toNat)
  | item => if item.isNull then return none else .error item.mismatch

end StripSequencer.Cbor
