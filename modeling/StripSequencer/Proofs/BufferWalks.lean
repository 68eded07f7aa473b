import StripSequencer.Proofs.Grammar
import StripSequencer.Proofs.Reassembly

/-!
# `StripSequencer.Proofs.BufferWalks` — every way of going through a buffer finds the same program

Instructions carry no length marks, so whoever goes through a buffer finds their boundaries anew: the walk of a store,
which takes at most one step for each byte, the check of a program, and the listing. A buffer may hold anything, such as
bytes that are no opcode, an instruction that is cut off by the end, or nothing but instructions of one byte, for which
the walk needs every step that it has.

## Contents
- `Word.Chain`: one decoded word after the other, as far as it goes; `Word.chain_iff_sweep`.
- `Store.WalksAgree`, `walksAgree_layout`.
- `buffer_walks_agree`.
-/

namespace StripSequencer

open Program

/-! ## Chains -/

namespace Word

/-- The words that are decoded one after the other from an offset on, each where the one before it ends, up to the
offset `stop` where nothing is decoded any more. Nothing bounds their number. -/
inductive Chain (code : List UInt8) : Nat → List (Nat × Word) → Nat → Prop where
  | done {offset : Nat} (h : (readAt code offset).2 = 0) : Chain code offset [] offset
  | next {offset n stop : Nat} {w : Word} {steps : List (Nat × Word)} (hread : readAt code offset = (w, n))
      (hpos : 0 < n) (htail : Chain code (offset + n) steps stop) :
      Chain code offset ((offset, w) :: steps) stop

theorem chain_sweepFrom (code : List UInt8) (offset : Nat) :
    Chain code offset (sweepFrom code offset).steps (sweepFrom code offset).stop := by
  fun_induction sweepFrom code offset with
  | case1 offset hzero => exact .done hzero
  | case2 offset hpos tail ih => exact .next rfl (Nat.pos_of_ne_zero hpos) ih

/-- From every offset there is one chain only. -/
theorem Chain.unique {code : List UInt8} {offset stop stop' : Nat} {steps steps' : List (Nat × Word)}
    (h : Chain code offset steps stop) (h' : Chain code offset steps' stop') : steps = steps' ∧ stop = stop' := by
  induction h generalizing steps' with
  | done hzero =>
    cases h' with
    | done _ => exact ⟨rfl, rfl⟩
    | next hread hpos _ =>
      rw [hread] at hzero
      exact absurd hzero (Nat.ne_of_gt hpos)
  | next hread hpos _ ih =>
    cases h' with
    | done hzero =>
      rw [hread] at hzero
      exact absurd hzero (Nat.ne_of_gt hpos)
    | next hread' _ htail' =>
      rw [hread] at hread'
      cases hread'
      obtain ⟨rfl, rfl⟩ := ih htail'
      exact ⟨rfl, rfl⟩

/-- The chain from the first byte on is what decoding word after word finds. -/
theorem chain_iff_sweep {code : List UInt8} {steps : List (Nat × Word)} {stop : Nat} :
    Chain code 0 steps stop ↔ steps = (sweep code).steps ∧ stop = (sweep code).stop := by
  constructor
  · intro h
    exact h.unique (chain_sweepFrom code 0)
  · rintro ⟨rfl, rfl⟩
    exact chain_sweepFrom code 0

end Word

/-! ## Listed rows -/

namespace Listing

/-- What the rows of code say, each row being assembled as a line of program text. -/
theorem map_rows_assembled {rest : List UInt8} (hrest : Instruction.read? rest = none) (p : List Instruction)
    (mark : Option Nat) :
    (rows (encode p ++ rest) mark).map (fun row => (row.offset, Assembly.assembleLine (Text.ofString row.content)))
      = (located 0 p).map fun step => (step.1, .ok (some step.2)) := by
  rw [rows_layout hrest, List.map_map]
  refine List.map_congr_left ?_
  intro step _
  show (step.1, Assembly.assembleLine (Text.ofString step.2.text)) = (step.1, .ok (some step.2))
  rw [Assembly.assembleLine_text]

end Listing

/-! ## Agreement -/

namespace Store

/-- All ways of going through the buffer of a store find the same instructions, and stop at the same offset. -/
structure WalksAgree (s : Store) : Prop where
  /-- The walk is the chain of decoded words from the first byte on, and its end is the extent of the program. -/
  chain : ∀ steps stop, Word.Chain s.code 0 steps stop
    ↔ steps = s.walk.map (fun step => (step.1, Word.ofInstruction step.2)) ∧ stop = s.extent
  /-- One step for each byte is enough: no walk with more steps gets further. -/
  uncut : ∀ bound, s.capacity ≤ bound → visit bound 0 s.code = s.walk
  extent_le : s.extent ≤ s.capacity
  program_valid : Program.validate s.program = .ok ()
  reloads : ∃ t, s.load s.program = .ok t ∧ t.program = s.program ∧ t.extent = s.extent
  /-- The listing of the whole buffer shows, as text, the instructions of the walk at their offsets. -/
  listed : ∀ mark, ∃ rows, Listing.read? (Listing.render (Listing.rows s.code mark)) = some rows
    ∧ rows.map (fun row => (row.offset, Assembly.assembleLine (Text.ofString row.content)))
      = s.walk.map fun step => (step.1, .ok (some step.2))
  /-- The listing stops at the extent. -/
  listed_to : ∀ mark, Listing.stop s.code mark = s.extent
  /-- A scan stops at the extent. -/
  scanned_to : (Program.scan s.code).stop = s.extent
  /-- The check of the whole buffer gets as far as the walk. -/
  checked_to : Program.validate s.code = .ok () ↔ s.extent = s.capacity

variable {s : Store} {p : List Instruction} {rest : List UInt8}

theorem program_layout (hcode : s.code = encode p ++ rest) (hrest : Instruction.read? rest = none) :
    s.program = encode p := by
  unfold program
  rw [extent_layout hcode hrest]
  exact leading_layout hcode

/-- A program that is loaded into the store that it was read from is the store's program again. The byte behind it
becomes a terminator, which starts no instruction either. -/
theorem load_program (hcode : s.code = encode p ++ rest) (hrest : Instruction.read? rest = none) :
    ∃ t, s.load s.program = .ok t ∧ t.program = s.program ∧ t.extent = s.extent := by
  have hfits : size p ≤ s.capacity := by
    rw [capacity_layout hcode]
    omega
  have hended : Instruction.read? ((s.code.drop (size p)).set 0 terminator) = none :=
    (ended_set_terminator _).read?_eq_none
  rw [program_layout hcode hrest, extent_layout hcode hrest]
  refine ⟨_, load_encode hfits, ?_, ?_⟩
  · exact program_layout rfl hended
  · exact extent_layout rfl hended

/-- Code is valid exactly if nothing follows its instructions. -/
theorem validate_layout (hcode : s.code = encode p ++ rest) (hrest : Instruction.read? rest = none) :
    Program.validate s.code = .ok () ↔ s.extent = s.capacity := by
  rw [extent_layout hcode hrest, capacity_layout hcode, hcode]
  cases rest with
  | nil => simp
  | cons b rest =>
    have hflaw : Program.validate (encode p ++ b :: rest) ≠ .ok () := by
      rw [validate_eq_scan, scan_layout hrest]
      simp [flawAt?]
    simp [hflaw]

theorem walksAgree_layout (hcode : s.code = encode p ++ rest) (hrest : Instruction.read? rest = none) :
    s.WalksAgree where
  chain := by
    intro steps stop
    rw [Word.chain_iff_sweep, walk_layout hcode hrest, extent_layout hcode hrest, hcode, sweep_layout hrest]
  uncut := by
    intro bound hbound
    have hlength := length_le_size p
    rw [capacity_layout hcode] at hbound
    rw [walk_layout hcode hrest, hcode]
    exact visit_layout hrest p (by omega) 0
  extent_le := by
    rw [extent_layout hcode hrest, capacity_layout hcode]
    omega
  program_valid := by
    rw [program_layout hcode hrest]
    exact validate_encode p
  reloads := load_program hcode hrest
  listed := by
    intro mark
    refine ⟨_, Listing.read?_render fun row hrow => Listing.feed_not_mem_rows hrow, ?_⟩
    rw [hcode, walk_layout hcode hrest]
    exact Listing.map_rows_assembled hrest p mark
  listed_to := by
    intro mark
    rw [Listing.stop_eq_scan, extent_layout hcode hrest, hcode, scan_layout hrest]
  scanned_to := by
    rw [extent_layout hcode hrest, hcode, scan_layout hrest]
  checked_to := validate_layout hcode hrest

end Store

/-- **All walks over a buffer agree**, whatever it holds: every buffer is a list of instructions and a rest that starts
none, and each walk goes through the list and stops before the rest. -/
theorem buffer_walks_agree (s : Store) : s.WalksAgree := by
  obtain ⟨p, rest, hcode, hrest⟩ := exists_layout s.code
  exact Store.walksAgree_layout hcode hrest

/-- A buffer full of instructions of one byte takes every step of the walk, and a byte that is no opcode ends it. -/
example : (⟨List.replicate 16 1, 0⟩ : Store).extent = 16
    ∧ (⟨(List.replicate 16 1).set 3 0xEE, 0⟩ : Store).extent = 3 := by
  decide

end StripSequencer
