import StripSequencer.Proofs.CursorWords
import StripSequencer.Proofs.Reassembly

/-!
# `StripSequencer.Proofs.Completions` — completions can be used

The fragment at a position is a run of bytes, and what is left of the line before it is trimmed as characters. The
two views agree: no character that ends in bytes of a word is blank. So there are completions only where the
fragment is all that the line holds before the position, and a completion that takes its place is an instruction.

## Contents
- `scanBack?`, `slice?`, `completions?`: the same completions, with every index checked against the line.
- `trim_before_iff`: trimming leaves the fragment exactly if nothing but blanks stands before it.
- `completed`, with `assembleLine_completed`: the line with a mnemonic in the place of the fragment.
- `Usable`, `mem_completions_iff`, `completions_usable`.
-/

namespace StripSequencer.LanguageServer

open Assembly

/-! ## Checked indices -/

/-- Goes back from a place over the bytes of a word. There is no result if a byte beyond the end is asked for. -/
def scanBack? (bytes : List UInt8) : Nat → Option Nat
  | 0 => some 0
  | k + 1 =>
    match bytes[k]? with
    | none => none
    | some b => if isWordByte b then scanBack? bytes k else some (k + 1)

/-- The bytes from one place to another. There is no result if the places are not in order or beyond the end. -/
def slice? (bytes : List UInt8) (start stop : Nat) : Option (List UInt8) :=
  if start ≤ stop ∧ stop ≤ bytes.length then some ((bytes.take stop).drop start) else none

/-- The part of a word that ends at a column, with its indices checked. -/
def fragment? (line : Text) (column : Nat) : Option (List UInt8) :=
  (scanBack? line.bytes (cursor line column)).bind fun start => slice? line.bytes start (cursor line column)

/-- The completions at a position, with the indices into the line checked. -/
def completions? (document : Text) (p : Position) : Option (List Opcode) :=
  let line := lineAt document p.line
  (fragment? line p.column).bind fun fragment =>
    (slice? line.bytes 0 (cursor line p.column)).map fun front =>
      if (Text.ofBytes front).trim.bytes = fragment then completionsOf fragment else []

theorem slice?_eq {bytes : List UInt8} {start stop : Nat} (hstart : start ≤ stop) (hstop : stop ≤ bytes.length) :
    slice? bytes start stop = some ((bytes.take stop).drop start) :=
  if_pos ⟨hstart, hstop⟩

/-- Going back stops after as many bytes as the run before the place has. -/
theorem scanBack?_eq {bytes : List UInt8} {k : Nat} (h : k ≤ bytes.length) :
    scanBack? bytes k = some (k - ((bytes.take k).reverse.takeWhile isWordByte).length) := by
  induction k with
  | zero => rfl
  | succ k ih =>
    have hk : k < bytes.length := h
    rw [scanBack?, List.getElem?_eq_getElem hk, List.take_add_one, List.getElem?_eq_getElem hk, Option.toList_some,
      List.reverse_append, List.reverse_singleton, List.singleton_append]
    by_cases hword : isWordByte bytes[k] = true
    · rw [List.takeWhile_cons_of_pos hword, List.length_cons, Nat.add_sub_add_right]
      simp only [if_pos hword]
      exact ih (Nat.le_of_lt hk)
    · rw [List.takeWhile_cons_of_neg hword]
      simp only [if_neg hword, List.length_nil, Nat.sub_zero]

/-- The checked fragment is the fragment. -/
theorem fragment?_eq (line : Text) (column : Nat) : fragment? line column = some (fragmentAt line column) := by
  have hcursor := cursor_le_length line column
  have hscan : scanBack? line.bytes (cursor line column) = some (wordStart line column) := by
    rw [scanBack?_eq hcursor, ← before_eq_take_cursor, wordStart, fragmentAt, List.length_reverse]
  unfold fragment?
  rw [hscan, Option.bind_some, slice?_eq (wordStart_le_cursor line column) hcursor, ← before_eq_take_cursor,
    before_eq, List.drop_left' (length_lead line column)]

/-- **No index is outside the line.** -/
theorem completions?_eq (document : Text) (p : Position) :
    completions? document p = some (completions document p) := by
  unfold completions?
  dsimp only
  rw [fragment?_eq, Option.bind_some, slice?_eq (Nat.zero_le _) (cursor_le_length _ _), List.drop_zero,
    ← before_eq_take_cursor]
  rfl

/-! ## The bytes before the fragment -/

/-- No blank is made of bytes of words. -/
theorem isBlank_of_word_bytes {bytes : List UInt8} (hword : ∀ b ∈ bytes, isWordByte b = true) :
    ∀ g ∈ Text.ofBytes bytes, g.isBlank = false := by
  intro g hg
  rw [← Bool.not_eq_true]
  intro hblank
  obtain ⟨front, b, hbytes, hb⟩ := isWordByte_last_of_blank hblank
  have hmem : b ∈ (Text.ofBytes bytes).bytes := by
    refine List.mem_flatMap.mpr ⟨g, hg, ?_⟩
    rw [hbytes]
    exact List.mem_append_right front (List.mem_singleton_self b)
  rw [Text.bytes_ofBytes] at hmem
  rw [hword b hmem] at hb
  cases hb

theorem exists_char_of_blanks {blanks : Text} (h : ∀ g ∈ blanks, g.isBlank = true) :
    ∀ g ∈ blanks, ∃ c, g = .char c := by
  intro g hg
  obtain ⟨c, hc, -⟩ := Glyph.exists_char_of_isBlank (h g hg)
  exact ⟨c, hc⟩

section Lead

variable {line : Text} {column : Nat}

/-- After a byte that belongs to no word there is no fragment. -/
theorem fragmentAt_eq_nil {front : List UInt8} {b : UInt8} (h : before line column = front ++ [b])
    (hb : isWordByte b = false) : fragmentAt line column = [] := by
  unfold fragmentAt
  rw [h, List.reverse_append, List.reverse_singleton, List.singleton_append,
    List.takeWhile_cons_of_neg (by simp [hb]), List.reverse_nil]

/-- If trimming leaves the fragment, it takes away blanks only before it. -/
theorem isBlank_of_trim_before (htrim : (Text.ofBytes (before line column)).trim.bytes = fragmentAt line column) :
    ∀ g ∈ Text.ofBytes (lead line column), g.isBlank = true := by
  obtain ⟨front, back, hparts, hfront, hback⟩ := Text.exists_eq_append_trim (Text.ofBytes (before line column))
  have hbytes : before line column = front.bytes ++ (fragmentAt line column ++ back.bytes) := by
    have heq := congrArg Text.bytes hparts
    rwa [Text.bytes_ofBytes, Text.bytes_append, Text.bytes_append, htrim] at heq
  rcases List.eq_nil_or_concat back with rfl | ⟨back', g, rfl⟩
  · -- nothing is trimmed from the back: what is trimmed from the front stands before the fragment
    have hlead : lead line column = front.bytes := by
      rw [before_eq, Text.bytes_nil, List.append_nil] at hbytes
      exact List.append_cancel_right hbytes
    rw [hlead, Text.ofBytes_bytes_chars (exists_char_of_blanks hfront)]
    exact hfront
  · -- the last byte before the cursor belongs to a blank, so there is no fragment and nothing is left
    obtain ⟨init, b, hg, hb⟩ := isWordByte_last_of_blank (hback g (by simp))
    have hlast : before line column
        = front.bytes ++ (fragmentAt line column ++ (Text.bytes back' ++ init)) ++ [b] := by
      rw [hbytes]
      simp [hg]
    have hnone := fragmentAt_eq_nil hlast hb
    have hlead : lead line column = before line column := by
      rw [before_eq, hnone, List.append_nil]
    rw [hnone] at htrim
    rw [hlead, hparts, Text.eq_nil_of_bytes htrim, List.nil_append]
    intro g' hg'
    rcases List.mem_append.mp hg' with hmem | hmem
    · exact hfront g' hmem
    · exact hback g' hmem

/-- **Trimming leaves the fragment exactly if nothing but blanks stands before it.** -/
theorem trim_before_iff :
    (Text.ofBytes (before line column)).trim.bytes = fragmentAt line column ↔
      ∀ g ∈ Text.ofBytes (lead line column), g.isBlank = true := by
  refine ⟨isBlank_of_trim_before, ?_⟩
  intro hblank
  have hword : ∀ g ∈ Text.ofBytes (fragmentAt line column), g.isBlank = false :=
    isBlank_of_word_bytes fun b => isWordByte_of_mem_fragmentAt line column
  have hread := Text.ofBytes_append_chars (exists_char_of_blanks hblank) (fragmentAt line column)
  rw [Text.bytes_ofBytes, ← before_eq] at hread
  rw [hread, Text.trim_blanks_append hblank hword, Text.bytes_ofBytes]

end Lead

/-! ## Completed lines -/

/-- The line up to a column, with a mnemonic in the place of the fragment. -/
def completed (line : Text) (column : Nat) (op : Opcode) : Text :=
  Text.ofBytes (lead line column ++ (Text.ofString op.mnemonic).bytes)

/-- What makes a completion useful. -/
structure Usable (line : Text) (column : Nat) (op : Opcode) : Prop where
  /-- The mnemonic is the first and only token. -/
  only_token : (completed line column op).fields = [Text.ofString op.mnemonic]
  /-- The line is read as the instruction, and lacks nothing but operands. -/
  recognised :
    op.operandCount = 0 ∧ (∃ i, assembleLine (completed line column op) = .ok (some i) ∧ i.opcode = op)
      ∨ op.operandCount ≠ 0
        ∧ assembleLine (completed line column op) = .error (.wrongOperandCount (Text.ofString op.mnemonic) op 0)
  /-- It is never an unknown instruction. -/
  known : ∀ token, assembleLine (completed line column op) ≠ .error (.unknownInstruction token)

theorem ofBytes_mnemonic (op : Opcode) :
    Text.ofBytes (Text.ofString op.mnemonic).bytes = Text.ofString op.mnemonic := by
  apply Text.ofBytes_bytes_chars
  intro g hg
  obtain ⟨c, -, hc⟩ := List.mem_map.mp hg
  exact ⟨c, hc.symm⟩

section Completed

variable {line : Text} {column : Nat} (op : Opcode)
  (hblank : ∀ g ∈ Text.ofBytes (lead line column), g.isBlank = true)
include hblank

theorem completed_eq : completed line column op = Text.ofBytes (lead line column) ++ Text.ofString op.mnemonic := by
  have hread := Text.ofBytes_append_chars (exists_char_of_blanks hblank) (Text.ofString op.mnemonic).bytes
  rwa [Text.bytes_ofBytes, ofBytes_mnemonic] at hread

theorem comment_not_mem_completed : Glyph.char '#' ∉ completed line column op := by
  rw [completed_eq op hblank, List.mem_append]
  rintro (hlead | hmnemonic)
  · exact absurd (hblank _ hlead) (by decide)
  · exact (plain_mnemonic op _ hmnemonic).notComment rfl

theorem fields_completed : (completed line column op).fields = [Text.ofString op.mnemonic] := by
  have hne : Text.ofString op.mnemonic ≠ [] := by cases op <;> decide
  have hword : ∀ g ∈ Text.ofString op.mnemonic, g.isBlank = false := by
    intro g hg
    exact (plain_mnemonic op g hg).notBlank
  have hend : ∀ g ∈ ([] : Text).head?, g.isBlank = true := by
    intro g hg
    cases hg
  have hone := Text.fields_word_append hne hword hend
  rw [List.append_nil] at hone
  rw [completed_eq op hblank, Text.fields_blanks_append hblank]
  exact hone

/-- A completed line lacks nothing but operands. -/
theorem assembleLine_completed :
    assembleLine (completed line column op)
      = if 0 ≠ op.operandCount then .error (.wrongOperandCount (Text.ofString op.mnemonic) op 0)
        else .ok (some (Instruction.ofPayload op (Payload.ofList []))) := by
  unfold assembleLine
  rw [uncommented_of_not_mem (comment_not_mem_completed op hblank), fields_completed op hblank]
  simp only [opcode?_mnemonic]
  rfl

/-- **After blanks every mnemonic is usable.** -/
theorem usable_of_blank : Usable line column op := by
  refine ⟨fields_completed op hblank, ?_, ?_⟩
  · rw [assembleLine_completed op hblank]
    by_cases hcount : op.operandCount = 0
    · left
      rw [hcount]
      exact ⟨rfl, _, rfl, Instruction.opcode_ofPayload op _⟩
    · right
      rw [if_pos (Ne.symm hcount)]
      exact ⟨hcount, rfl⟩
  · intro token h
    rw [assembleLine_completed op hblank] at h
    split at h <;> cases h

end Completed

/-! ## Completions -/

/-- The completions are the mnemonics that the fragment begins, if nothing but blanks stands before it. -/
theorem mem_completions_iff {document : Text} {p : Position} {op : Opcode} :
    op ∈ completions document p ↔
      (∀ g ∈ Text.ofBytes (lead (lineAt document p.line) p.column), g.isBlank = true)
        ∧ loweredText (Text.ofBytes (fragmentAt (lineAt document p.line) p.column)) <+: Text.ofString op.mnemonic := by
  have hevery : op ∈ Opcode.every := by cases op <;> decide
  rw [← trim_before_iff]
  unfold completions completionsOf
  dsimp only
  split
  · next htrim => simp [htrim, hevery]
  · next htrim => simp [htrim]

theorem nodup_completions (document : Text) (p : Position) : (completions document p).Nodup := by
  have hevery : Opcode.every.Nodup := by decide
  unfold completions completionsOf
  dsimp only
  split
  · exact hevery.filter _
  · exact List.nodup_nil

/-- **Completions can be used**: they are found without an index outside the line, they are the mnemonics that the
fragment begins if only blanks stand before it, and each of them makes the line an instruction. -/
theorem completions_usable (document : Text) (p : Position) :
    completions? document p = some (completions document p)
      ∧ (∀ op, op ∈ completions document p ↔
        (∀ g ∈ Text.ofBytes (lead (lineAt document p.line) p.column), g.isBlank = true)
          ∧ loweredText (Text.ofBytes (fragmentAt (lineAt document p.line) p.column)) <+: Text.ofString op.mnemonic)
      ∧ (completions document p).Nodup
      ∧ ∀ op ∈ completions document p, Usable (lineAt document p.line) p.column op := by
  refine ⟨completions?_eq document p, fun op => mem_completions_iff, nodup_completions document p, ?_⟩
  intro op hop
  obtain ⟨hblank, -⟩ := mem_completions_iff.mp hop
  exact usable_of_blank op hblank

/-- A fragment after two blanks, one of which has two bytes, with the cursor beyond the end of the line. -/
def indentedDocument : Text := Text.ofBytes [0xC2, 0xA0, 0x09, 0x43, 0x4C, 0x0A, 0xFF]

/-- The capitals after the blanks are completed to the only mnemonic that they begin. -/
theorem completion_after_wide_blank :
    completions indentedDocument ⟨0, 9⟩ = [.clear] ∧ Usable (lineAt indentedDocument 0) 9 .clear := by
  have hlist : completions indentedDocument ⟨0, 9⟩ = [.clear] := by decide +kernel
  refine ⟨hlist, (completions_usable indentedDocument ⟨0, 9⟩).2.2.2 .clear ?_⟩
  rw [hlist]
  exact List.mem_singleton_self _

end StripSequencer.LanguageServer
