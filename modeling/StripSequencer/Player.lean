import StripSequencer.Program
import StripSequencer.Strip

/-!
# `StripSequencer.Player` — playback, one tick at a time

A tick first counts down a pending delay. When none is left it executes instructions from the cursor on,
and starts over at the end of the program, until a delay is executed or the step bound is reached.

## Contents
- `PixelPolicy` and `Player.Rules`: what is done about pixels beyond the strip, and the step bound.
- `Player.effect`: the calls of one instruction.
- `Player.run` with an equation for each kind of step; `Player.tick`: one tick, with its report and its calls.
-/

namespace StripSequencer

/-- What is done about pixel instructions whose index is beyond the strip. -/
inductive PixelPolicy where
  /-- They are skipped. -/
  | skip
  /-- They are passed to the strip. -/
  | forward
  /-- They are refused when appended, and skipped when played. -/
  | reject
  /-- A policy without a name, which skips them. The numbers up to 2 have names. -/
  | unnamed (code : UInt8) (beyond : 2 < code)
deriving DecidableEq, Repr

namespace PixelPolicy

/-- The policy with a number. -/
def ofCode (n : UInt8) : PixelPolicy :=
  if beyond : 2 < n then .unnamed n beyond
  else if n = 0 then .skip
  else if n = 1 then .forward
  else .reject

/-- The number of a policy. -/
def code : PixelPolicy → UInt8
  | .skip => 0
  | .forward => 1
  | .reject => 2
  | .unnamed n _ => n

/-- Every number is that of one policy. -/
theorem ofCode_code (policy : PixelPolicy) : ofCode policy.code = policy := by
  cases policy with
  | skip | forward | reject => rfl
  | unnamed n beyond => exact dif_pos beyond

theorem code_ofCode (n : UInt8) : (ofCode n).code = n := by
  unfold ofCode
  by_cases beyond : 2 < n
  · rw [dif_pos beyond]
    rfl
  · rw [dif_neg beyond]
    have hle : n.toNat ≤ 2 := UInt8.le_iff_toNat_le.mp (UInt8.not_lt.mp beyond)
    have hcases : n = 0 ∨ n = 1 ∨ n = 2 := by
      simp only [← UInt8.toNat_inj, UInt8.reduceToNat]
      omega
    rcases hcases with rfl | rfl | rfl <;> rfl

/-- The name of a policy in settings. -/
def name : PixelPolicy → String
  | .skip => "skip"
  | .forward => "forward"
  | .reject => "reject"
  | .unnamed .. => "unknown"

/-- The policy with a name; no name means `skip`. -/
def ofName? (name : String) : Option PixelPolicy :=
  if name = "" ∨ name = "skip" then some .skip
  else if name = "forward" then some .forward
  else if name = "reject" then some .reject
  else none

end PixelPolicy

namespace Player

/-- The default bound on the steps of a tick. -/
def defaultMaxSteps : Nat := 4096

/-- What playback goes by: the length of the strip, the pixel policy and the step bound. -/
structure Rules where
  leds : UInt8
  policy : PixelPolicy
  maxSteps : Nat
deriving DecidableEq, Repr

/-- What a tick did. -/
structure Report where
  executed : Nat := 0
  wrapped : Nat := 0
  skipped : Nat := 0
  /-- The tick only counted down a delay. -/
  waiting : Bool := false
  /-- The step bound was reached; the next tick goes on at the cursor. -/
  truncated : Bool := false
deriving DecidableEq, Repr

/-- A pixel instruction for `index` is dropped. -/
def drops (rules : Rules) (index : UInt8) : Bool :=
  rules.leds ≤ index && rules.policy != .forward

/-- The calls that an instruction makes on the strip. -/
def effect (rules : Rules) : Instruction → List Strip.Call
  | .clear => [.clear]
  | .pixel index red green blue =>
    if drops rules index then [] else [.setPixel index ⟨red, green, blue⟩]
  | .all red green blue =>
    (List.range rules.leds.toNat).map fun index => .setPixel (UInt8.ofNat index) ⟨red, green, blue⟩
  | .delay _ => []

/-- The instruction is a pixel instruction that is dropped. -/
def isSkipped (rules : Rules) : Instruction → Bool
  | .pixel index .. => drops rules index
  | _ => false

/-- The report after one more instruction. -/
def Report.count (rules : Rules) (i : Instruction) (r : Report) : Report :=
  { r with
    executed := r.executed + 1
    skipped := if isSkipped rules i then r.skipped + 1 else r.skipped }

/-- Where playback stands: the offset of the next instruction and the ticks left before it. -/
structure Position where
  cursor : Nat
  delay : UInt8
deriving DecidableEq, Repr

/-- The result of a tick. -/
structure Tick where
  position : Position
  report : Report
  calls : Array Strip.Call
deriving Repr

/-- Executes at most the given number of steps from `cursor`, where `rest` begins. Executing an
instruction is a step, and so is going back to the start of `code`. -/
def run (rules : Rules) (code : List UInt8) :
    Nat → (cursor : Nat) → (rest : List UInt8) → Report → Array Strip.Call → Tick
  | 0, cursor, _, report, calls => ⟨⟨cursor, 0⟩, { report with truncated := true }, calls⟩
  | steps + 1, cursor, rest, report, calls =>
    match Instruction.read? rest with
    | none => run rules code steps 0 code { report with wrapped := report.wrapped + 1 } calls
    | some (.delay ticks, _) =>
      ⟨⟨cursor + (Instruction.delay ticks).size, ticks⟩,
        report.count rules (.delay ticks), calls⟩
    | some (i, rest) =>
      run rules code steps (cursor + i.size) rest (report.count rules i)
        (calls ++ effect rules i)

section Steps

variable {rules : Rules} {code rest after : List UInt8} {cursor : Nat} {report : Report} {calls : Array Strip.Call}

/-- Where no instruction starts, a step goes back to the start of the code. -/
theorem run_wrap (h : Instruction.read? rest = none) (steps : Nat) :
    run rules code (steps + 1) cursor rest report calls
      = run rules code steps 0 code { report with wrapped := report.wrapped + 1 } calls := by
  rw [run, h]

/-- A delay ends the tick. -/
theorem run_delay {ticks : UInt8} (h : Instruction.read? rest = some (.delay ticks, after)) (steps : Nat) :
    run rules code (steps + 1) cursor rest report calls
      = ⟨⟨cursor + (Instruction.delay ticks).size, ticks⟩, report.count rules (.delay ticks), calls⟩ := by
  rw [run, h]

/-- Any other instruction is followed by the rest of the steps. -/
theorem run_other {i : Instruction} (h : Instruction.read? rest = some (i, after)) (hi : ∀ ticks, i ≠ .delay ticks)
    (steps : Nat) :
    run rules code (steps + 1) cursor rest report calls
      = run rules code steps (cursor + i.size) after (report.count rules i) (calls ++ effect rules i) := by
  rw [run, h]
  cases i with
  | delay ticks => exact absurd rfl (hi ticks)
  | clear | pixel | all => rfl

end Steps

/-- Advances playback of `code` by one tick. -/
def tick (rules : Rules) (code : List UInt8) (p : Position) : Tick :=
  if 1 < p.delay then ⟨{ p with delay := p.delay - 1 }, { waiting := true }, #[]⟩
  else run rules code rules.maxSteps p.cursor (code.drop p.cursor) {} #[]

end Player

end StripSequencer
