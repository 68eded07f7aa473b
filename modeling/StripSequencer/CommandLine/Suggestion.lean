/-!
# `StripSequencer.CommandLine.Suggestion` — names close to a mistyped one

## Contents
- `editDistance`: the least number of insertions, deletions and replacements between two texts.
- `suggestions`: the names that may have been meant.
-/

namespace StripSequencer.CommandLine

/-- The next row of distances. `corner` and `previous` are the row before, to the text so far without and
with `x`; `left` is the distance just found. -/
def distanceRow (x : UInt8) (left corner : Nat) : List UInt8 → List Nat → List Nat
  | y :: ys, above :: previous =>
    let here := if x = y then corner else 1 + min corner (min left above)
    here :: distanceRow x here above ys previous
  | _, _ => []

/-- The distances from a text to the beginnings of another. `row` holds those from the text so far, of
which there are `count` bytes. -/
def distances (ys : List UInt8) (count : Nat) (row : List Nat) : List UInt8 → List Nat
  | [] => row
  | x :: xs =>
    distances ys (count + 1) ((count + 1) :: distanceRow x (count + 1) count ys (row.drop 1)) xs

/-- The least number of bytes to insert, delete or replace to get from one text to another. -/
def editDistance (xs ys : List UInt8) : Nat :=
  (distances ys 0 (List.range (ys.length + 1)) xs).getLast?.getD 0

/-- The greatest distance of a suggestion. -/
def suggestionDistance : Nat := 2

/-- The name may have been meant: it is close to what was typed, or begins with it. -/
def isSuggested (typed name : String) : Bool :=
  editDistance typed.toLower.toUTF8.toList name.toUTF8.toList ≤ suggestionDistance
    || name.startsWith typed.toLower

/-- The names that may have been meant. -/
def suggestions (names : List String) (typed : String) : List String := names.filter (isSuggested typed)

end StripSequencer.CommandLine
