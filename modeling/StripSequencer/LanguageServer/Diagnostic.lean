import StripSequencer.Assembly

/-!
# `StripSequencer.LanguageServer.Diagnostic` — what is wrong with a document

A document is checked line by line. A line that does not assemble gets an error; the first line whose
instruction no longer fits into the program buffer gets a warning.

## Contents
- `Diagnostic` with its `Problem`.
- `diagnose`: the diagnostics of a document, in the order of its lines.
-/

namespace StripSequencer.LanguageServer

/-- What is wrong with a line. -/
inductive Problem where
  | error (why : LineError)
  /-- The program exceeds a buffer of the given capacity here. -/
  | overflow (capacity : Int)
deriving DecidableEq, Repr

/-- The number that tells an error, 1, from a warning, 2. -/
def Problem.severity : Problem → Nat
  | .error _ => 1
  | .overflow _ => 2

/-- The words for a problem. -/
def Problem.message : Problem → String
  | .error why => why.message
  | .overflow capacity =>
    "program exceeds the " ++ toString capacity ++ " byte buffer at this instruction"

/-- A problem with a line. -/
structure Diagnostic where
  /-- The number of the line, counted from 0. -/
  line : Nat
  /-- The number of bytes of the line. -/
  width : Nat
  problem : Problem
deriving DecidableEq, Repr

/-- The diagnostics of lines, the first of which has the given number. `offset` is the number of bytes of
the instructions before them, and `full` says whether the buffer was already exceeded. -/
def diagnoseLines (capacity : Int) (number offset : Nat) (full : Bool) : List Text → List Diagnostic
  | [] => []
  | line :: rest =>
    match Assembly.assembleLine line with
    | .error why =>
      ⟨number, line.bytes.length, .error why⟩ :: diagnoseLines capacity (number + 1) offset full rest
    | .ok none => diagnoseLines capacity (number + 1) offset full rest
    | .ok (some i) =>
      if !full && capacity < offset + i.size then
        ⟨number, line.bytes.length, .overflow capacity⟩
          :: diagnoseLines capacity (number + 1) (offset + i.size) true rest
      else diagnoseLines capacity (number + 1) (offset + i.size) full rest

/-- The diagnostics of a document for a buffer of the given capacity. -/
def diagnose (capacity : Int) (document : Text) : List Diagnostic :=
  diagnoseLines capacity 0 0 false document.lines

end StripSequencer.LanguageServer
