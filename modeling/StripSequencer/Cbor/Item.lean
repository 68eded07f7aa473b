/-!
# `StripSequencer.Cbor.Item` — CBOR data items and their encoding

A data item starts with a head: a major type, and a number that is a value, a length, a count or a tag.
The encoder writes the shortest heads and definite lengths.

## Contents
- `Major`, `Item`.
- `headBytes`, `Item.encode`: the writer.
-/

namespace StripSequencer.Cbor

/-- The major types. -/
inductive Major where
  | unsigned
  | negative
  | bytes
  | text
  | array
  | map
  | tag
  | other
deriving DecidableEq, Repr

/-- The number of a major type. -/
def Major.code : Major → Nat
  | .unsigned => 0
  | .negative => 1
  | .bytes => 2
  | .text => 3
  | .array => 4
  | .map => 5
  | .tag => 6
  | .other => 7

/-- The major type in the upper three bits of a byte. -/
def Major.ofByte (b : UInt8) : Major :=
  match b.toNat / 32 with
  | 0 => .unsigned
  | 1 => .negative
  | 2 => .bytes
  | 3 => .text
  | 4 => .array
  | 5 => .map
  | 6 => .tag
  | _ => .other

/-- A data item. Strings are given by their chunks; one of definite length has a single chunk. -/
inductive Item where
  | unsigned (n : Nat)
  /-- The integer `-1 - n`. -/
  | negative (n : Nat)
  | bytes (chunks : List (List UInt8))
  | text (chunks : List (List UInt8))
  | array (items : List Item)
  /-- Keys and values in turn. -/
  | map (entries : List Item)
  | tag (number : Nat) (content : Item)
  | simple (n : Nat)
  /-- A float of the given number of bytes. -/
  | float (width bits : Nat)
deriving Repr

/-- The simple value `null`. -/
def Item.null : Item := .simple 22

/-- The integer as an item. -/
def Item.ofInt (n : Int) : Item := if 0 ≤ n then .unsigned n.toNat else .negative (-1 - n).toNat

/-- The last `width` bytes of a number, the highest first. -/
def bigEndian : (width n : Nat) → List UInt8
  | 0, _ => []
  | width + 1, n => UInt8.ofNat (n >>> (8 * width)) :: bigEndian width n

/-- The first byte of a head. -/
def headByte (major : Major) (info : Nat) : UInt8 := UInt8.ofNat (major.code * 32 + info)

/-- The shortest head with a number below `2 ^ 64`. -/
def headBytes (major : Major) (n : Nat) : List UInt8 :=
  if n < 24 then [headByte major n]
  else if n < UInt8.size then headByte major 24 :: bigEndian 1 n
  else if n < UInt16.size then headByte major 25 :: bigEndian 2 n
  else if n < UInt32.size then headByte major 26 :: bigEndian 4 n
  else headByte major 27 :: bigEndian 8 n

mutual

/-- The bytes of an item. -/
def Item.encode : Item → List UInt8
  | .unsigned n => headBytes .unsigned n
  | .negative n => headBytes .negative n
  | .bytes chunks => headBytes .bytes chunks.flatten.length ++ chunks.flatten
  | .text chunks => headBytes .text chunks.flatten.length ++ chunks.flatten
  | .array items => headBytes .array items.length ++ encodeAll items
  | .map entries => headBytes .map (entries.length / 2) ++ encodeAll entries
  | .tag number content => headBytes .tag number ++ content.encode
  | .simple n => headBytes .other n
  | .float width bits =>
    headByte .other (if width = 2 then 25 else if width = 4 then 26 else 27) :: bigEndian width bits

/-- The bytes of items in order. -/
def encodeAll : List Item → List UInt8
  | [] => []
  | item :: items => item.encode ++ encodeAll items

end

end StripSequencer.Cbor
