import StripSequencer.Listing

/-!
# `StripSequencer.Proofs.Scanning` — the loops over code are scans

Code is gone through in two loops: validation looks at opcodes and lengths only, and a listing decodes the word at
each offset. Both go from one instruction to the next by its size, and stop where no complete instruction starts.
What they find is what `Program.scan` finds, which takes instructions off the front of a list.

## Contents
- `Instruction.read?_of_opcode`, `read?_of_unknown`: an instruction is there if its operands are.
- `Program.scanFrom_of_some`, `scanFrom_of_none`: one step of a scan; `scan_rest`: what a scan leaves.
- `Program.flawAt?`, with `validate_eq_scan`: the verdict of validation is that on the rest of a scan.
- `Listing.rows_eq_scan`, `Listing.stop_eq_scan`: the rows of code are the steps of a scan.
-/

namespace StripSequencer

namespace Instruction

theorem read?_of_unknown {b : UInt8} (h : Opcode.ofByte? b = none) (tail : List UInt8) : read? (b :: tail) = none := by
  simp [read?, h]

/-- Behind an opcode there is an instruction exactly if there are bytes enough for its operands. -/
theorem read?_of_opcode {b : UInt8} {op : Opcode} (h : Opcode.ofByte? b = some op) (tail : List UInt8) :
    read? (b :: tail)
      = if tail.length < op.operandCount then none
        else some (ofPayload op (.ofList tail), tail.drop op.operandCount) := by
  simp only [read?, h]
  cases op with
  | clear => rfl
  | delay =>
    cases tail with
    | nil => rfl
    | cons ticks rest => rfl
  | all =>
    rcases tail with _ | ⟨red, _ | ⟨green, _ | ⟨blue, rest⟩⟩⟩
    · rfl
    · rfl
    · rfl
    · simp [Opcode.operandCount, ofPayload, Payload.ofList]
  | pixel =>
    rcases tail with _ | ⟨index, _ | ⟨red, _ | ⟨green, _ | ⟨blue, rest⟩⟩⟩⟩
    · rfl
    · rfl
    · rfl
    · rfl
    · simp [Opcode.operandCount, ofPayload, Payload.ofList]

end Instruction

namespace Word

@[simp] theorem instruction?_ofInstruction (i : Instruction) : (ofInstruction i).instruction? = some i := by
  cases i <;> rfl

/-- The text of an instruction's word is that of the instruction. -/
theorem text_ofInstruction (i : Instruction) : (ofInstruction i).text = i.text := by
  unfold text
  rw [instruction?_ofInstruction]

/-- Where none starts, the length is zero. -/
theorem readAt_of_none {code : List UInt8} {offset : Nat}
    (h : Instruction.read? (code.drop offset) = none) : (readAt code offset).2 = 0 := by
  unfold readAt
  rw [if_neg (by omega), Int.toNat_natCast]
  cases hdrop : code.drop offset with
  | nil => rfl
  | cons b tail =>
    rw [hdrop] at h
    simp only [h]

end Word

namespace Program

/-! ## One step of a scan -/

variable {code rest : List UInt8} {offset : Nat} {i : Instruction}

theorem scanFrom_of_none (h : Instruction.read? code = none) : scanFrom offset code = ⟨[], offset, code⟩ := by
  rw [scanFrom]
  split
  · rfl
  · next hsome => rw [h] at hsome; cases hsome

theorem scanFrom_of_some (h : Instruction.read? code = some (i, rest)) :
    scanFrom offset code
      = { scanFrom (offset + i.size) rest with steps := (offset, i) :: (scanFrom (offset + i.size) rest).steps } := by
  rw [scanFrom]
  split
  · next hnone => rw [h] at hnone; cases hnone
  · next hsome =>
    rw [h] at hsome
    cases hsome
    rfl

/-- What a scan leaves is the code from the offset on at which it stops. -/
theorem scanFrom_rest (code : List UInt8) (offset : Nat) :
    (scanFrom offset (code.drop offset)).rest = code.drop (scanFrom offset (code.drop offset)).stop := by
  cases hread : Instruction.read? (code.drop offset) with
  | none => rw [scanFrom_of_none hread]
  | some found =>
    obtain ⟨i, rest⟩ := found
    have hrest := Instruction.eq_drop_of_read? hread
    -- the instruction has a byte, so less code is left
    have hlt : (code.drop (offset + i.size)).length < (code.drop offset).length := by
      rw [← hrest]
      exact Instruction.length_lt_of_read? hread
    rw [scanFrom_of_some hread, hrest]
    exact scanFrom_rest code (offset + i.size)
termination_by (code.drop offset).length
decreasing_by exact hlt

theorem scan_rest (code : List UInt8) : (scan code).rest = code.drop (scan code).stop :=
  scanFrom_rest code 0

/-- The byte at which a scan stops is the first of the rest. -/
theorem getElem?_stop (code : List UInt8) : code[(scan code).stop]? = (scan code).rest.head? := by
  rw [scan_rest, List.head?_drop]

/-! ## Validation -/

/-- The flaw of code that cannot be read past `offset`, where `rest` begins. -/
def flawAt? (offset : Nat) (rest : List UInt8) : Option Flaw :=
  rest.head?.map fun b =>
    match Opcode.ofByte? b with
    | none => .unknownByte offset b
    | some op => .truncated offset op

theorem flawAt?_of_unknown {b : UInt8} (h : Opcode.ofByte? b = none) (offset : Nat) (tail : List UInt8) :
    flawAt? offset (b :: tail) = some (.unknownByte offset b) := by
  simp [flawAt?, h]

theorem flawAt?_of_opcode {b : UInt8} {op : Opcode} (h : Opcode.ofByte? b = some op) (offset : Nat)
    (tail : List UInt8) : flawAt? offset (b :: tail) = some (.truncated offset op) := by
  simp [flawAt?, h]

/-- The verdict of validation from an offset on is that on the rest of a scan from there. -/
theorem validateFrom_eq_scanFrom (code : List UInt8) (offset : Nat) :
    validateFrom code offset
      = (flawAt? (scanFrom offset (code.drop offset)).stop (scanFrom offset (code.drop offset)).rest).elim
          (.ok ()) .error := by
  fun_induction validateFrom code offset with
  | case1 offset hlt hop =>
    have hdrop : code.drop offset = code[offset] :: code.drop (offset + 1) := List.drop_eq_getElem_cons hlt
    rw [hdrop, scanFrom_of_none (Instruction.read?_of_unknown hop _), flawAt?_of_unknown hop]
    rfl
  | case2 offset hlt op hop hcut =>
    have hdrop : code.drop offset = code[offset] :: code.drop (offset + 1) := List.drop_eq_getElem_cons hlt
    have hread : Instruction.read? (code[offset] :: code.drop (offset + 1)) = none := by
      rw [Instruction.read?_of_opcode hop, List.length_drop, if_pos]
      unfold Opcode.size at hcut
      omega
    rw [hdrop, scanFrom_of_none hread, flawAt?_of_opcode hop]
    rfl
  | case3 offset hlt op hop hfits ih =>
    have hdrop : code.drop offset = code[offset] :: code.drop (offset + 1) := List.drop_eq_getElem_cons hlt
    have hread : Instruction.read? (code.drop offset)
        = some (.ofPayload op (.ofList (code.drop (offset + 1))), code.drop (offset + op.size)) := by
      rw [hdrop, Instruction.read?_of_opcode hop, List.length_drop, List.drop_drop, Nat.add_assoc, if_neg]
      · rfl
      · unfold Opcode.size at hfits
        omega
    have hsize : (Instruction.ofPayload op (.ofList (code.drop (offset + 1)))).size = op.size := by
      unfold Instruction.size
      rw [Instruction.opcode_ofPayload]
    rw [scanFrom_of_some hread, hsize]
    exact ih
  | case4 offset hend =>
    have hnil : code.drop offset = [] := List.drop_eq_nil_of_le (Nat.le_of_not_lt hend)
    have hread : Instruction.read? [] = none := rfl
    rw [hnil, scanFrom_of_none hread]
    rfl

/-- **Validation is a scan**: code passes if the scan leaves nothing, and else the first byte of the rest is the flaw. -/
theorem validate_eq_scan (code : List UInt8) :
    validate code = (flawAt? (scan code).stop (scan code).rest).elim (.ok ()) .error :=
  validateFrom_eq_scanFrom code 0

end Program

namespace Listing

open Program

/-- The row of an instruction at an offset. -/
def stepRow (mark : Option Nat) (step : Nat × Instruction) : Row := ⟨step.1, mark = some step.1, step.2.text⟩

/-- The rows from an offset on are the steps of a scan from there. -/
theorem rowsFrom_eq_scanFrom (code : List UInt8) (mark : Option Nat) (offset : Nat) :
    rowsFrom code mark offset
      = ((scanFrom offset (code.drop offset)).steps.map (stepRow mark), (scanFrom offset (code.drop offset)).stop) := by
  fun_induction rowsFrom code mark offset with
  | case1 offset hlt w hword =>
    -- a word without a size is no instruction
    cases hread : Instruction.read? (code.drop offset) with
    | none =>
      rw [scanFrom_of_none hread]
      rfl
    | some found =>
      rw [Word.readAt_of_read? hread] at hword
      injection hword with _ hsize
      exact absurd hsize (Nat.ne_of_gt found.1.size_pos)
  | case2 offset hlt w size hword hpos rows stop hrows ih =>
    cases hread : Instruction.read? (code.drop offset) with
    | none =>
      have hzero := Word.readAt_of_none hread
      rw [hword] at hzero
      exact absurd hzero hpos
    | some found =>
      obtain ⟨i, rest⟩ := found
      have hrest := Instruction.eq_drop_of_read? hread
      rw [Word.readAt_of_read? hread] at hword
      injection hword with hfirst hsize
      subst hfirst hsize
      rw [hrows] at ih
      injection ih with hsteps hstop
      rw [scanFrom_of_some hread, hrest, hsteps, hstop, Word.text_ofInstruction]
      rfl
  | case3 offset hend =>
    have hnil : code.drop offset = [] := List.drop_eq_nil_of_le (Nat.le_of_not_lt hend)
    have hread : Instruction.read? [] = none := rfl
    rw [hnil, scanFrom_of_none hread]
    rfl

/-- **The rows of code are the steps of a scan.** -/
theorem rows_eq_scan (code : List UInt8) (mark : Option Nat) :
    rows code mark = (scan code).steps.map (stepRow mark) :=
  congrArg Prod.fst (rowsFrom_eq_scanFrom code mark 0)

theorem exists_step_of_mem_rows {code : List UInt8} {mark : Option Nat} {row : Row} (h : row ∈ rows code mark) :
    ∃ step, stepRow mark step = row := by
  rw [rows_eq_scan] at h
  obtain ⟨step, -, hrow⟩ := List.mem_map.mp h
  exact ⟨step, hrow⟩

theorem stop_eq_scan (code : List UInt8) (mark : Option Nat) : stop code mark = (scan code).stop :=
  congrArg Prod.snd (rowsFrom_eq_scanFrom code mark 0)

end Listing

end StripSequencer
