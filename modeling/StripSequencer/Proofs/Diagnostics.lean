import StripSequencer.LanguageServer.Diagnostic
import StripSequencer.Proofs.Grammar
import StripSequencer.Proofs.Layout

/-!
# `StripSequencer.Proofs.Diagnostics` — diagnostics say what assembling and storing a document would say

Three loops read a program text: one that assembles it, one that diagnoses it, and one that appends its
instructions to a buffer. They agree on every text. The errors of the diagnosis are the lines that do not
assemble, and assembling reports the first of them. The warning stands on the line of the first instruction
that a buffer of the same capacity refuses, and a text without errors has one exactly if its program cannot
be loaded into such a buffer.

## Contents
- `Assembly.failures`, `Assembly.sourced`: the lines of a text that fail, and those with an instruction.
- `assembleLines_eq`: what assembling comes to; `errors_diagnoseLines`: what the errors of a diagnosis are.
- `Store.firstRefused?`: instructions appended one by one; `Store.Filled`, `append_filled`: one append.
- `warnings_diagnoseLines`: the warning is where the first append is refused.
- `diagnostics_agree`.
-/

namespace StripSequencer

open Program

/-! ## The lines of a text -/

namespace Assembly

/-- A line that does not assemble. -/
structure Failing where
  line : Nat
  text : Text
  error : LineError

/-- A line with an instruction. -/
structure Sourced where
  line : Nat
  text : Text
  instruction : Instruction

/-- The lines that do not assemble; the first line has the given number. -/
def failures (number : Nat) (lines : List Text) : List Failing :=
  (lines.zipIdx number).filterMap fun (text, line) =>
    match assembleLine text with
    | .error error => some ⟨line, text, error⟩
    | .ok _ => none

/-- The lines with an instruction; the first line has the given number. -/
def sourced (number : Nat) (lines : List Text) : List Sourced :=
  (lines.zipIdx number).filterMap fun (text, line) =>
    match assembleLine text with
    | .ok (some i) => some ⟨line, text, i⟩
    | .ok none | .error _ => none

section Cons

variable {number : Nat} {line : Text} {rest : List Text}

theorem failures_cons_error {error : LineError} (h : assembleLine line = .error error) :
    failures number (line :: rest) = ⟨number, line, error⟩ :: failures (number + 1) rest := by
  simp [failures, List.zipIdx_cons, h]

theorem failures_cons_ok {found : Option Instruction} (h : assembleLine line = .ok found) :
    failures number (line :: rest) = failures (number + 1) rest := by
  simp [failures, List.zipIdx_cons, h]

theorem sourced_cons_error {error : LineError} (h : assembleLine line = .error error) :
    sourced number (line :: rest) = sourced (number + 1) rest := by
  simp [sourced, List.zipIdx_cons, h]

theorem sourced_cons_none (h : assembleLine line = .ok none) :
    sourced number (line :: rest) = sourced (number + 1) rest := by
  simp [sourced, List.zipIdx_cons, h]

theorem sourced_cons_some {i : Instruction} (h : assembleLine line = .ok (some i)) :
    sourced number (line :: rest) = ⟨number, line, i⟩ :: sourced (number + 1) rest := by
  simp [sourced, List.zipIdx_cons, h]

end Cons

/-- **What assembling comes to**: the first failure, or all instructions. Failures count lines from 0 and
errors count them from 1. -/
theorem assembleLines_eq (number : Nat) (lines : List Text) :
    assembleLines (number + 1) lines
      = match failures number lines with
        | [] => .ok ((sourced number lines).map (·.instruction))
        | f :: _ => .error ⟨f.line + 1, f.error⟩ := by
  induction lines generalizing number with
  | nil => rfl
  | cons line rest ih =>
    rw [assembleLines]
    cases h : assembleLine line with
    | error error =>
      rw [failures_cons_error h]
    | ok found =>
      cases found with
      | none =>
        rw [failures_cons_ok h, sourced_cons_none h]
        exact ih (number + 1)
      | some i =>
        rw [failures_cons_ok h, sourced_cons_some h]
        dsimp only
        rw [ih (number + 1)]
        cases failures (number + 1) rest <;> rfl

end Assembly

/-! ## Appending one by one -/

namespace Store

/-- Appends instructions from an offset on, and gives the number of those that were written and what became
of the next, if one was not written. -/
def firstRefused? (s : Store) (offset : Int64) : List Instruction → Option (Nat × Appended)
  | [] => none
  | i :: rest =>
    match s.append offset (Word.ofInstruction i) with
    | .written s' next => (firstRefused? s' next rest).map fun (k, why) => (k + 1, why)
    | .refused why => some (0, .refused why)
    | .outside offset => some (0, .outside offset)

theorem firstRefused?_of_written {s s' : Store} {offset next : Int64} {i : Instruction}
    (h : s.append offset (Word.ofInstruction i) = .written s' next) (rest : List Instruction) :
    s.firstRefused? offset (i :: rest) = (s'.firstRefused? next rest).map fun (k, why) => (k + 1, why) := by
  rw [firstRefused?, h]

theorem firstRefused?_of_refused {s : Store} {offset : Int64} {i : Instruction} {why : Refusal}
    (h : s.append offset (Word.ofInstruction i) = .refused why) (rest : List Instruction) :
    s.firstRefused? offset (i :: rest) = some (0, .refused why) := by
  rw [firstRefused?, h]

/-- The store holds `used` bytes, which end at the offset, and its capacity is in the signed range. -/
structure Filled (s : Store) (offset : Int64) (used : Nat) : Prop where
  offset_eq : offset.toInt = used
  account : used + s.remaining = s.capacity
  bounded : (s.capacity : Int) ≤ Int64.maxValue.toInt

theorem filled_empty (capacity : Int64) : (empty capacity.toInt).Filled 0 0 where
  offset_eq := rfl
  account := by
    show 0 + capacity.toInt.toNat = (List.replicate capacity.toInt.toNat terminator).length
    rw [List.length_replicate, Nat.zero_add]
  bounded := by
    have hle := capacity.toInt_le
    have hpos : 0 ≤ Int64.maxValue.toInt := by decide
    show ((List.replicate capacity.toInt.toNat terminator).length : Int) ≤ Int64.maxValue.toInt
    rw [List.length_replicate]
    omega

variable {s : Store} {offset : Int64} {used : Nat} {i : Instruction}

/-- The end of an instruction that fits does not leave the signed range. -/
theorem Filled.toInt_next (h : s.Filled offset used) (hfits : used + i.size ≤ s.capacity) :
    (offset + Int64.ofNat i.size).toInt = used + i.size := by
  have hbounded : (s.capacity : Int) ≤ 9223372036854775807 := h.bounded
  have hsize : (Int64.ofNat i.size).toInt = i.size := Int64.toInt_ofNat_of_lt (by omega)
  rw [Int64.toInt_add, h.offset_eq, hsize]
  apply Int.bmod_eq_of_le <;> omega

/-- **One append.** An instruction is written exactly if it fits, and the room for it is checked before its
end is computed, so that nothing wraps. -/
theorem Filled.append (h : s.Filled offset used) (i : Instruction) :
    (∃ s' next, s.append offset (Word.ofInstruction i) = .written s' next ∧ s'.capacity = s.capacity
        ∧ s'.Filled next (used + i.size) ∧ used + i.size ≤ s.capacity)
      ∨ s.append offset (Word.ofInstruction i) = .refused (.noRoom i.opcode s.remaining)
        ∧ s.capacity < used + i.size := by
  have haccount := h.account
  by_cases hfits : used + i.size ≤ s.capacity
  · left
    have hnext := h.toInt_next hfits
    have hguard : ¬ (s.remaining < i.size ∨ offset < 0
        ∨ (s.capacity : Int) < (offset + Int64.ofNat i.size).toInt) := by
      rw [hnext, Int64.lt_iff_toInt_lt, h.offset_eq, Int64.toInt_zero]
      omega
    have hinside : ¬ (s.capacity : Int) < offset.toInt := by
      rw [h.offset_eq]
      omega
    have hcapacity : (overwrite s.code offset.toInt.toNat i.encode).length = s.code.length := by
      apply length_overwrite
      rw [h.offset_eq, Int.toNat_natCast, Instruction.length_encode]
      exact hfits
    refine ⟨⟨overwrite s.code offset.toInt.toNat i.encode, s.remaining - i.size⟩,
      offset + Int64.ofNat i.size, ?_, hcapacity, ⟨hnext, ?_, ?_⟩, hfits⟩
    · unfold Store.append
      rw [InPlace.append_of_inside hguard (Word.instruction?_ofInstruction i) hinside]
    · show used + i.size + (s.remaining - i.size) = (overwrite s.code offset.toInt.toNat i.encode).length
      rw [hcapacity]
      show _ = s.capacity
      omega
    · show ((overwrite s.code offset.toInt.toNat i.encode).length : Int) ≤ Int64.maxValue.toInt
      rw [hcapacity]
      exact h.bounded
  · right
    have hguard : s.remaining < i.size ∨ offset < 0
        ∨ (s.capacity : Int) < (offset + Int64.ofNat i.size).toInt := by
      left
      omega
    refine ⟨?_, by omega⟩
    unfold Store.append
    rw [InPlace.append_of_refused (Word.instruction?_ofInstruction i) hguard]

/-- All instructions are written exactly if they fit together. -/
theorem Filled.firstRefused?_eq_none_iff (h : s.Filled offset used) (p : List Instruction) :
    s.firstRefused? offset p = none ↔ used + size p ≤ s.capacity := by
  induction p generalizing s offset used with
  | nil =>
    have haccount := h.account
    simp only [firstRefused?, size_nil, true_iff]
    omega
  | cons i rest ih =>
    rw [size_cons]
    rcases h.append i with ⟨s', next, happend, hcapacity, hfilled, hfits⟩ | ⟨happend, hover⟩
    · rw [firstRefused?_of_written happend, Option.map_eq_none_iff, ih hfilled, hcapacity, Nat.add_assoc]
    · rw [firstRefused?_of_refused happend]
      simp only [reduceCtorEq, false_iff]
      omega

end Store

/-! ## The errors of a diagnosis -/

namespace LanguageServer

open Assembly

/-- The diagnostics of a severity. -/
def ofSeverity (severity : Nat) (diagnostics : List Diagnostic) : List Diagnostic :=
  diagnostics.filter (·.problem.severity = severity)

/-- The errors among diagnostics. -/
def errors (diagnostics : List Diagnostic) : List Diagnostic := ofSeverity 1 diagnostics

/-- The warnings among diagnostics. -/
def warnings (diagnostics : List Diagnostic) : List Diagnostic := ofSeverity 2 diagnostics

/-- The error of a line that does not assemble. -/
def ofFailing (f : Failing) : Diagnostic := ⟨f.line, f.text.bytes.length, .error f.error⟩

/-- The warning on a line with an instruction. -/
def ofSourced (capacity : Int) (x : Sourced) : Diagnostic := ⟨x.line, x.text.bytes.length, .overflow capacity⟩

/-- **The errors are the lines that do not assemble**, in order, whatever the capacity is and whether the
buffer was already exceeded or not. -/
theorem errors_diagnoseLines (capacity : Int) (number offset : Nat) (full : Bool) (lines : List Text) :
    errors (diagnoseLines capacity number offset full lines) = (failures number lines).map ofFailing := by
  induction lines generalizing number offset full with
  | nil => rfl
  | cons line rest ih =>
    rw [diagnoseLines]
    cases h : assembleLine line with
    | error why =>
      rw [failures_cons_error h, List.map_cons, ← ih (number + 1) offset full]
      rfl
    | ok found =>
      rw [failures_cons_ok h]
      cases found with
      | none => exact ih (number + 1) offset full
      | some i =>
        dsimp only
        split
        · exact ih (number + 1) (offset + i.size) true
        · exact ih (number + 1) (offset + i.size) full

/-! ## The warning of a diagnosis -/

/-- Once the buffer is exceeded there is no further warning. -/
theorem warnings_diagnoseLines_full (capacity : Int) (number offset : Nat) (lines : List Text) :
    warnings (diagnoseLines capacity number offset true lines) = [] := by
  induction lines generalizing number offset with
  | nil => rfl
  | cons line rest ih =>
    rw [diagnoseLines]
    cases assembleLine line with
    | error why => exact ih (number + 1) offset
    | ok found =>
      cases found with
      | none => exact ih (number + 1) offset
      | some i => exact ih (number + 1) (offset + i.size)

/-- **The warning is where the first append is refused.** By induction on the lines: the store holds the
instructions of the lines before, and an instruction that fits is written behind them. -/
theorem warnings_diagnoseLines {capacity : Int} {s : Store} {offset : Int64} {used : Nat}
    (h : s.Filled offset used) (hcapacity : s.capacity = capacity.toNat) (number : Nat) (lines : List Text) :
    (s.firstRefused? offset ((sourced number lines).map (·.instruction)) = none
        ∧ warnings (diagnoseLines capacity number used false lines) = [])
      ∨ ∃ k op free x, s.firstRefused? offset ((sourced number lines).map (·.instruction))
            = some (k, .refused (.noRoom op free))
          ∧ (sourced number lines)[k]? = some x
          ∧ warnings (diagnoseLines capacity number used false lines) = [ofSourced capacity x] := by
  induction lines generalizing s offset used number with
  | nil => exact .inl ⟨rfl, rfl⟩
  | cons line rest ih =>
    rw [diagnoseLines]
    cases hline : assembleLine line with
    | error why =>
      rw [sourced_cons_error hline]
      exact ih h hcapacity (number + 1)
    | ok found =>
      cases found with
      | none =>
        rw [sourced_cons_none hline]
        exact ih h hcapacity (number + 1)
      | some i =>
        have hpos := i.size_pos
        rw [sourced_cons_some hline, List.map_cons]
        dsimp only
        rcases h.append i with ⟨s', next, happend, hkept, hfilled, hfits⟩ | ⟨happend, hover⟩
        · -- the instruction is written, and the rest is appended behind it
          have hwarn : ¬ (!false && decide (capacity < (used : Int) + i.size)) = true := by
            simp only [Bool.not_false, Bool.true_and, decide_eq_true_eq]
            omega
          rw [Store.firstRefused?_of_written happend, if_neg hwarn]
          rcases ih hfilled (hkept.trans hcapacity) (number + 1) with ⟨hnone, hwarnings⟩ | hlater
          · left
            rw [hnone]
            exact ⟨rfl, hwarnings⟩
          · right
            obtain ⟨k, op, free, x, hrefused, hx, hwarnings⟩ := hlater
            rw [hrefused]
            exact ⟨k + 1, op, free, x, rfl, hx, hwarnings⟩
        · -- the instruction is refused, and later lines are not warned about
          have hwarn : (!false && decide (capacity < (used : Int) + i.size)) = true := by
            simp only [Bool.not_false, Bool.true_and, decide_eq_true_eq]
            omega
          right
          rw [Store.firstRefused?_of_refused happend, if_pos hwarn]
          refine ⟨0, i.opcode, s.remaining, ⟨number, line, i⟩, rfl, rfl, ?_⟩
          show _ :: warnings (diagnoseLines capacity (number + 1) (used + i.size) true rest) = _
          rw [warnings_diagnoseLines_full]
          rfl

/-! ## Documents -/

/-- The instructions of a document with their lines. -/
def instructionLines (document : Text) : List Sourced := sourced 0 document.lines

/-- The diagnostics of a document agree with assembling it and with storing its program. -/
structure Agrees (capacity : Int64) (document : Text) : Prop where
  /-- The errors are those of the lines that do not assemble, in order. -/
  errors_eq : errors (diagnose capacity.toInt document) = (failures 0 document.lines).map ofFailing
  assembles_iff : (∃ code, assemble document = .ok code) ↔ errors (diagnose capacity.toInt document) = []
  first_error : ∀ d rest, errors (diagnose capacity.toInt document) = d :: rest →
    ∃ e, assemble document = .error e ∧ e.line = d.line + 1
      ∧ e.message = "line " ++ toString (d.line + 1) ++ ": " ++ d.problem.message
  one_warning : (warnings (diagnose capacity.toInt document)).length ≤ 1
  warned_iff : ∀ code, assemble document = .ok code →
    (warnings (diagnose capacity.toInt document) ≠ []
      ↔ ∃ why, (Store.empty capacity.toInt).load code = .error why ∧ why.cause = .capacityExceeded)
  /-- The warning is for the first instruction that an empty buffer refuses. -/
  warned_line : ∀ program, assembleProgram document = .ok program →
    ∀ d ∈ warnings (diagnose capacity.toInt document),
      program = (instructionLines document).map (·.instruction)
        ∧ ∃ k x why, (Store.empty capacity.toInt).firstRefused? 0 program = some (k, .refused why)
          ∧ why.cause = .capacityExceeded ∧ (instructionLines document)[k]? = some x ∧ d.line = x.line

section Document

variable {document : Text}

theorem errors_diagnose (capacity : Int) (document : Text) :
    errors (diagnose capacity document) = (failures 0 document.lines).map ofFailing :=
  errors_diagnoseLines capacity 0 0 false document.lines

/-- A document assembles exactly if no line fails, to the instructions of its lines. -/
theorem assembleProgram_eq_ok_iff {program : List Instruction} :
    assembleProgram document = .ok program
      ↔ failures 0 document.lines = [] ∧ program = (instructionLines document).map (·.instruction) := by
  unfold assembleProgram
  rw [assembleLines_eq 0 document.lines]
  cases failures 0 document.lines with
  | nil => simp [instructionLines, eq_comm]
  | cons f rest => simp

theorem assemble_eq_ok_iff {code : List UInt8} :
    assemble document = .ok code ↔ ∃ program, assembleProgram document = .ok program ∧ encode program = code := by
  unfold assemble
  cases assembleProgram document <;> simp [Except.map]

/-- A document that does not assemble is reported with its first failure. -/
theorem assembleProgram_of_failures {f : Failing} {rest : List Failing}
    (h : failures 0 document.lines = f :: rest) :
    assembleProgram document = .error ⟨f.line + 1, f.error⟩ := by
  unfold assembleProgram
  rw [assembleLines_eq 0 document.lines, h]

/-- There is no warning and the instructions of all lines can be appended to an empty buffer, or the only
warning is on the line of the first instruction that cannot. -/
theorem warnings_diagnose (capacity : Int64) (document : Text) :
    ((Store.empty capacity.toInt).firstRefused? 0 ((instructionLines document).map (·.instruction)) = none
        ∧ warnings (diagnose capacity.toInt document) = [])
      ∨ ∃ k op free x, (Store.empty capacity.toInt).firstRefused? 0
              ((instructionLines document).map (·.instruction))
            = some (k, .refused (.noRoom op free))
          ∧ (instructionLines document)[k]? = some x
          ∧ warnings (diagnose capacity.toInt document) = [ofSourced capacity.toInt x] :=
  warnings_diagnoseLines (Store.filled_empty capacity) List.length_replicate 0 document.lines

/-- There is a warning exactly if the instructions of all lines are together longer than the buffer. -/
theorem warnings_ne_nil_iff (capacity : Int64) (document : Text) :
    warnings (diagnose capacity.toInt document) ≠ []
      ↔ (Store.empty capacity.toInt).capacity < size ((instructionLines document).map (·.instruction)) := by
  have hnone := (Store.filled_empty capacity).firstRefused?_eq_none_iff
    ((instructionLines document).map (·.instruction))
  rw [Nat.zero_add] at hnone
  rcases warnings_diagnose capacity document with ⟨hall, hwarnings⟩ | ⟨k, op, free, x, hrefused, _, hwarnings⟩
  · have hle := hnone.mp hall
    rw [hwarnings]
    simp only [ne_eq, not_true_eq_false, false_iff]
    omega
  · have hlt : ¬ size _ ≤ _ := mt hnone.mpr (by rw [hrefused]; exact nofun)
    rw [hwarnings]
    simp only [ne_eq, reduceCtorEq, not_false_eq_true, true_iff]
    omega

end Document

/-- Loading a program exceeds the capacity exactly if the program is longer. -/
theorem load_exceeds_iff (s : Store) (p : List Instruction) :
    (∃ why, s.load (encode p) = .error why ∧ why.cause = .capacityExceeded) ↔ s.capacity < size p := by
  by_cases hlen : s.capacity < size p
  · have hload : s.load (encode p) = _ := outcome_of_error (Store.InPlace.load_of_long (by rwa [length_encode]))
    exact ⟨fun _ => hlen, fun _ => ⟨_, hload, rfl⟩⟩
  · rw [Store.load_encode (Nat.le_of_not_lt hlen)]
    constructor
    · rintro ⟨why, hload, _⟩
      cases hload
    · intro hlt
      exact absurd hlt hlen

end LanguageServer

open Assembly LanguageServer in
/-- **Diagnostics agree with the assembler and the buffer**, for every document and every capacity. -/
theorem diagnostics_agree (capacity : Int64) (document : Text) : Agrees capacity document := by
  have herrors := errors_diagnose capacity.toInt document
  have hwarnings := warnings_diagnose capacity document
  refine ⟨herrors, ?_, ?_, ?_, ?_, ?_⟩
  · rw [herrors, List.map_eq_nil_iff]
    constructor
    · rintro ⟨code, hcode⟩
      obtain ⟨program, hprogram, _⟩ := assemble_eq_ok_iff.mp hcode
      exact (assembleProgram_eq_ok_iff.mp hprogram).1
    · intro hnil
      exact ⟨_, assemble_eq_ok_iff.mpr ⟨_, assembleProgram_eq_ok_iff.mpr ⟨hnil, rfl⟩, rfl⟩⟩
  · intro d rest hd
    rw [herrors] at hd
    obtain ⟨f, more, hfailures, rfl, _⟩ := List.map_eq_cons_iff.mp hd
    refine ⟨⟨f.line + 1, f.error⟩, ?_, rfl, rfl⟩
    rw [assemble, assembleProgram_of_failures hfailures]
    rfl
  · rcases hwarnings with ⟨_, hnone⟩ | ⟨_, _, _, _, _, _, hone⟩
    · rw [hnone]
      exact Nat.zero_le 1
    · rw [hone]
      exact Nat.le_refl 1
  · intro code hcode
    obtain ⟨program, hprogram, rfl⟩ := assemble_eq_ok_iff.mp hcode
    rw [warnings_ne_nil_iff, load_exceeds_iff, (assembleProgram_eq_ok_iff.mp hprogram).2]
  · intro program hprogram d hd
    obtain ⟨_, rfl⟩ := assembleProgram_eq_ok_iff.mp hprogram
    refine ⟨rfl, ?_⟩
    rcases hwarnings with ⟨_, hnone⟩ | ⟨k, op, free, x, hrefused, hx, hone⟩
    · rw [hnone] at hd
      cases hd
    · rw [hone] at hd
      rw [List.mem_singleton.mp hd]
      exact ⟨k, x, _, hrefused, rfl, hx, rfl⟩

end StripSequencer
