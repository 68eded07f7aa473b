import StripSequencer.Assembly
import StripSequencer.Proofs.Grammar
import StripSequencer.Proofs.ListingText

/-!
# `StripSequencer.Proofs.Reassembly` — assembling undoes disassembling

The rows of a disassembly name the instructions of code with their offsets, and the byte at which reading
stops. The texts of the instructions, one a line, are a program text that assembles to the code that was
read: mnemonics and decimal operands are taken apart by the assembler as they were put together.

## Contents
- `assembleLine_text`: an instruction is read back from its text; `assemble_texts`: a list of them is.
- `Listing.rows_layout`, `Listing.stopRow?_layout`: the rows of code.
- `Listing.stopContent`: how the byte that stops reading is named; `Listing.stopContent_injective`.
- `disassembly_reassembles`.
-/

namespace StripSequencer

open Program

/-! ## The words of an instruction -/

/-- A letter or digit separates nothing and starts no comment. -/
structure Glyph.Plain (g : Glyph) : Prop where
  notBlank : g.isBlank = false
  notComment : g ≠ .char '#'
  notFeed : g ≠ .char '\n'

theorem Glyph.plain_of_range {c : Char} (hlow : 48 ≤ c.toNat) (hhigh : c.toNat ≤ 122) :
    (Glyph.char c).Plain where
  notBlank := by
    simp only [Glyph.isBlank, isBlankChar, Bool.or_eq_false_iff, Bool.and_eq_false_iff,
      decide_eq_false_iff_not]
    omega
  notComment := by
    intro heq
    injection heq with hc
    subst hc
    exact absurd hlow (by decide)
  notFeed := by
    intro heq
    injection heq with hc
    subst hc
    exact absurd hlow (by decide)

/-- A byte in decimal digits. -/
def decimalText (b : UInt8) : Text := (Nat.toDigits 10 b.toNat).map .char

/-- The words of an instruction: its mnemonic and its operands. -/
def Instruction.words (i : Instruction) : List Text :=
  Text.ofString i.opcode.mnemonic :: i.operands.map decimalText

theorem plain_mnemonic (op : Opcode) : ∀ g ∈ Text.ofString op.mnemonic, g.Plain := by
  intro g hg
  obtain ⟨c, hc, rfl⟩ := List.mem_map.mp hg
  have hall : ∀ op : Opcode, op.mnemonic.toList.all (fun c => 48 ≤ c.toNat ∧ c.toNat ≤ 122) = true := by
    intro op
    cases op <;> rfl
  obtain ⟨hlow, hhigh⟩ := of_decide_eq_true (List.all_eq_true.mp (hall op) c hc)
  exact Glyph.plain_of_range hlow hhigh

theorem plain_decimalText (b : UInt8) : ∀ g ∈ decimalText b, g.Plain := by
  intro g hg
  obtain ⟨c, hc, rfl⟩ := List.mem_map.mp hg
  have hdigit : c.isDigit = true := Nat.isDigit_of_mem_toDigits (by decide) (by decide) hc
  simp only [Char.isDigit, Bool.and_eq_true, decide_eq_true_eq, UInt32.le_iff_toNat_le, ge_iff_le] at hdigit
  change 48 ≤ c.toNat ∧ c.toNat ≤ 57 at hdigit
  exact Glyph.plain_of_range hdigit.1 (by omega)

namespace Instruction

/-- The words of an instruction are not empty and consist of letters and digits. -/
theorem words_plain (i : Instruction) : ∀ word ∈ i.words, word ≠ [] ∧ ∀ g ∈ word, g.Plain := by
  intro word hword
  rcases List.mem_cons.mp hword with rfl | hoperand
  · have hne : ∀ op : Opcode, Text.ofString op.mnemonic ≠ [] := by
      intro op
      cases op <;> decide
    exact ⟨hne i.opcode, plain_mnemonic i.opcode⟩
  · obtain ⟨b, _, rfl⟩ := List.mem_map.mp hoperand
    exact ⟨by simp [decimalText, Nat.toDigits_ne_nil], plain_decimalText b⟩

/-- The text of an instruction is its words with blanks between them. -/
theorem ofString_text (i : Instruction) : Text.ofString i.text = [.char ' '].intercalate i.words := by
  have hdecimal : ∀ b : UInt8, Text.ofString (toString b.toNat) = decimalText b := by
    intro b
    unfold Text.ofString decimalText
    rw [Nat.toString_eq_ofList_toDigits, String.toList_ofList]
  unfold text words
  rw [Text.ofString_intercalate, List.map_cons, List.map_map]
  congr 2
  exact List.map_congr_left fun b _ => hdecimal b

/-- A glyph of an instruction's text is plain or the blank between two words. -/
theorem plain_or_blank_of_mem_text {i : Instruction} {g : Glyph} (h : g ∈ Text.ofString i.text) :
    g.Plain ∨ g = .char ' ' := by
  rw [ofString_text] at h
  rcases mem_intercalate h with ⟨word, hword, hg⟩ | hblank
  · exact .inl ((i.words_plain word hword).2 g hg)
  · exact .inr hblank

theorem feed_not_mem_text (i : Instruction) : Glyph.char '\n' ∉ Text.ofString i.text := by
  intro hmem
  rcases plain_or_blank_of_mem_text hmem with hplain | hblank
  · exact hplain.notFeed rfl
  · cases hblank

theorem comment_not_mem_text (i : Instruction) : Glyph.char '#' ∉ Text.ofString i.text := by
  intro hmem
  rcases plain_or_blank_of_mem_text hmem with hplain | hblank
  · exact hplain.notComment rfl
  · cases hblank

end Instruction

/-! ## Assembling texts of instructions -/

namespace Assembly

theorem uncommented_of_not_mem {line : Text} (h : Glyph.char '#' ∉ line) : uncommented line = line := by
  have hall : ∀ g ∈ line, decide (g ≠ .char '#') = true := by
    intro g hg
    have hne : g ≠ .char '#' := by
      rintro rfl
      exact h hg
    exact decide_eq_true hne
  calc uncommented line
      = (line ++ []).takeWhile (fun g => decide (g ≠ Glyph.char '#')) := by rw [List.append_nil]; rfl
    _ = line := by rw [List.takeWhile_append_of_pos hall, List.takeWhile_nil, List.append_nil]

/-- A mnemonic is that of its opcode. -/
theorem opcode?_mnemonic (op : Opcode) : opcode? (Text.ofString op.mnemonic) = some op := by
  cases op <;> rfl

/-- A byte in decimal digits is an operand with its value. -/
theorem operand_decimalText (b : UInt8) : operand (decimalText b) = .ok b := by
  have hread : Numeral.read 255 (decimalText b) = .ok b.toNat :=
    Numeral.read_decimal (Nat.le_of_lt_succ b.toNat_lt)
  unfold operand
  rw [hread]
  simp

theorem mapM_operand_decimalText (bytes : List UInt8) :
    (bytes.map decimalText).mapM operand = .ok bytes := by
  induction bytes with
  | nil => rfl
  | cons b bytes ih =>
    rw [List.map_cons, List.mapM_cons, operand_decimalText, ih]
    rfl

/-- **An instruction is read back from its text.** -/
theorem assembleLine_text (i : Instruction) : assembleLine (Text.ofString i.text) = .ok (some i) := by
  have hfields : (uncommented (Text.ofString i.text)).fields = i.words := by
    rw [uncommented_of_not_mem i.comment_not_mem_text, i.ofString_text]
    refine Text.fields_intercalate (List.cons_ne_nil _ _) ?_
    intro word hword
    obtain ⟨hne, hplain⟩ := i.words_plain word hword
    exact ⟨hne, fun g hg => (hplain g hg).notBlank⟩
  have hcount : (i.operands.map decimalText).length = i.opcode.operandCount := by
    rw [List.length_map]
    cases i <;> rfl
  have hpayload : Instruction.ofPayload i.opcode (Payload.ofList i.operands) = i := by
    cases i <;> rfl
  unfold assembleLine
  rw [hfields, Instruction.words]
  simp only [opcode?_mnemonic, hcount, mapM_operand_decimalText]
  simp only [ne_eq, not_true_eq_false, if_false]
  show Except.ok (some (Instruction.ofPayload i.opcode (Payload.ofList i.operands))) = _
  rw [hpayload]

/-- Lines with one instruction each are assembled to the instructions, whatever number they start with. -/
theorem assembleLines_texts (number : Nat) (p : List Instruction) :
    assembleLines number (p.map fun i => Text.ofString i.text) = .ok p := by
  induction p generalizing number with
  | nil => rfl
  | cons i p ih =>
    rw [List.map_cons, assembleLines, assembleLine_text]
    simp only [ih]
    rfl

/-- **The texts of instructions, one a line, are assembled to their code.** -/
theorem assemble_texts (p : List Instruction) :
    assemble (Text.ofString (String.intercalate "\n" (p.map Instruction.text))) = .ok (encode p) := by
  have hlines : assembleProgram (Text.ofString (String.intercalate "\n" (p.map Instruction.text))) = .ok p := by
    cases p with
    | nil => rfl
    | cons i p =>
      rw [Text.ofString_intercalate, List.map_map]
      unfold assembleProgram
      have hfeed : Text.ofString "\n" = [.char '\n'] := rfl
      rw [hfeed, Text.lines_intercalate]
      · exact assembleLines_texts 1 (i :: p)
      · exact List.cons_ne_nil _ _
      · intro line hline
        obtain ⟨j, _, rfl⟩ := List.mem_map.mp hline
        exact j.feed_not_mem_text
  unfold assemble
  rw [hlines]
  rfl

end Assembly

/-! ## The rows of code -/

namespace Listing

/-- How the byte at which reading stops is named. -/
def stopContent (b : UInt8) : String :=
  match Opcode.ofByte? b with
  | some op => "<truncated " ++ op.name ++ ">"
  | none => Opcode.nameOfByte b

theorem rows_layout {rest : List UInt8} (hrest : Instruction.read? rest = none) (p : List Instruction)
    (mark : Option Nat) :
    rows (encode p ++ rest) mark = (located 0 p).map (stepRow mark) := by
  rw [rows_eq_scan, scan_layout hrest]

/-- No row of an instruction is broken by a line feed. -/
theorem feed_not_mem_rows {code : List UInt8} {mark : Option Nat} {row : Row} (h : row ∈ rows code mark) :
    '\n' ∉ row.content.toList := by
  obtain ⟨step, rfl⟩ := exists_step_of_mem_rows h
  intro hmem
  exact step.2.feed_not_mem_text (Text.char_mem_ofString.mpr hmem)

theorem stopRow?_layout {rest : List UInt8} (hrest : Instruction.read? rest = none)
    (p : List Instruction) :
    stopRow? (encode p ++ rest)
      = rest.head?.map fun b => { offset := size p, content := stopContent b } := by
  unfold stopRow?
  rw [stop_eq_scan, getElem?_stop, scan_layout hrest]
  rfl

/-- Names of bytes take one line. -/
theorem feed_not_mem_stopContent (b : UInt8) : '\n' ∉ (stopContent b).toList := by
  unfold stopContent
  cases hop : Opcode.ofByte? b with
  | some op =>
    show '\n' ∉ ("<truncated " ++ op.name ++ ">").toList
    cases op <;> decide
  | none =>
    have hbyte : '\n' ∉ (Hexadecimal.byte b).toList := Hexadecimal.not_mem_upper rfl 2 b.toNat
    simp only [Opcode.nameOfByte, hop]
    split
    · decide
    · simp [Opcode.unknownName, hbyte]

/-- The three forms that the name of a byte can take. They differ in their first letter. -/
theorem stopContent_cases (b : UInt8) :
    (∃ op : Opcode, b = op.code ∧ stopContent b = "<truncated " ++ op.name ++ ">"
        ∧ (stopContent b).toList.head? = some '<')
      ∨ (b = terminator ∧ (stopContent b).toList.head? = some 'E')
      ∨ (stopContent b = "UNKNOWN(0x" ++ Hexadecimal.byte b ++ ")"
        ∧ (stopContent b).toList.head? = some 'U') := by
  unfold stopContent Opcode.nameOfByte
  cases hop : Opcode.ofByte? b with
  | some op => exact .inl ⟨op, (Opcode.code_of_ofByte? hop).symm, rfl, by simp⟩
  | none =>
    by_cases hend : b = terminator
    · exact .inr (.inl ⟨hend, by simp [hend]⟩)
    · exact .inr (.inr ⟨if_neg hend, by simp [hend, Opcode.unknownName]⟩)

theorem name_injective {op op' : Opcode} (h : op.name = op'.name) : op = op' := by
  cases op <;> cases op' <;> simp_all [Opcode.name]

/-- The digits of a byte tell the byte. -/
theorem byte_injective {b c : UInt8} (h : Hexadecimal.byte b = Hexadecimal.byte c) : b = c := by
  have hb := Hexadecimal.value?_upper 2 b.toNat
  have hc := Hexadecimal.value?_upper 2 c.toNat
  unfold Hexadecimal.byte at h
  rw [h, hc] at hb
  exact UInt8.toNat_inj.mp (Option.some.inj hb).symm

/-- **The byte that stops reading can be told from its name.** -/
theorem stopContent_injective {b c : UInt8} (h : stopContent b = stopContent c) : b = c := by
  rcases stopContent_cases b with ⟨op, rfl, hb, hinitial⟩ | ⟨rfl, hinitial⟩ | ⟨hb, hinitial⟩
  · rcases stopContent_cases c with ⟨op', rfl, hc, _⟩ | ⟨_, hother⟩ | ⟨_, hother⟩
    · rw [hb, hc, String.append_left_inj, String.append_right_inj] at h
      rw [name_injective h]
    · rw [h, hother] at hinitial
      cases hinitial
    · rw [h, hother] at hinitial
      cases hinitial
  · rcases stopContent_cases c with ⟨_, _, _, hother⟩ | ⟨rfl, _⟩ | ⟨_, hother⟩
    · rw [h, hother] at hinitial
      cases hinitial
    · rfl
    · rw [h, hother] at hinitial
      cases hinitial
  · rcases stopContent_cases c with ⟨_, _, _, hother⟩ | ⟨_, hother⟩ | ⟨hc, _⟩
    · rw [h, hother] at hinitial
      cases hinitial
    · rw [h, hother] at hinitial
      cases hinitial
    · rw [hb, hc, String.append_left_inj, String.append_right_inj] at h
      exact byte_injective h

end Listing

/-! ## Reassembling -/

/-- The disassembly of code, read as text, says what code is: `rows` are its instructions, `n` the length
of what they take up, and `extra` is the row that may follow them. -/
structure Reassembles (code : List UInt8) (n : Nat) (rows : List Listing.Row)
    (extra : Option Listing.Row) : Prop where
  longest : LongestPrefix code n
  read_back : Listing.read? (Listing.disassemble code) = some (rows ++ extra.toList)
  /-- The rows are the words that are decoded one after the other, each with its offset. -/
  in_order : rows.map (fun row => (row.offset, row.content))
    = (Word.sweep code).steps.map fun step => (step.1, step.2.text)
  /-- At the offset of a row the instruction is decoded that the row shows. -/
  located : ∀ row ∈ rows, ∃ w len, Word.readAt code row.offset = (w, len) ∧ 0 < len
    ∧ row.content = w.text
  /-- What the rows show is a program text for the bytes that they take up. -/
  assembled : Assembly.assemble (Text.ofString (String.intercalate "\n" (rows.map (·.content))))
    = .ok (code.take n)
  extra_iff : extra.isSome = true ↔ n < code.length
  /-- The extra row names the offset and the byte at which reading stops, and no other byte has its name. -/
  extra_names : ∀ row ∈ extra, row.offset = n ∧ ∃ b, code[n]? = some b
    ∧ ∀ c, row.content = Listing.stopContent c ↔ c = b

/-- What the rows of located instructions show is the text of the instructions. -/
theorem map_content_stepRow (mark : Option Nat) (start : Nat) (p : List Instruction) :
    ((located start p).map (Listing.stepRow mark)).map (·.content) = p.map Instruction.text :=
  calc ((located start p).map (Listing.stepRow mark)).map (·.content)
      = ((located start p).map (·.2)).map Instruction.text := by rw [List.map_map, List.map_map]; rfl
    _ = p.map Instruction.text := by rw [map_snd_located]

/-- No row of a disassembly is broken by a line feed. -/
theorem feed_not_mem_disassembly {code : List UInt8} {row : Listing.Row}
    (h : row ∈ Listing.disassembly code) : '\n' ∉ row.content.toList := by
  rcases List.mem_append.mp h with hstep | hstop
  · exact Listing.feed_not_mem_rows hstep
  · obtain ⟨b, _, hrow⟩ := Option.map_eq_some_iff.mp (Option.mem_toList.mp hstop)
    subst hrow
    exact Listing.feed_not_mem_stopContent b

theorem reassembles_layout {rest : List UInt8} (hrest : Instruction.read? rest = none)
    (p : List Instruction) :
    Reassembles (encode p ++ rest) (size p) ((located 0 p).map (Listing.stepRow none))
      (rest.head?.map fun b => { offset := size p, content := Listing.stopContent b }) where
  longest := longestPrefix_layout hrest p
  read_back := by
    have hrows : Listing.disassembly (encode p ++ rest) = (located 0 p).map (Listing.stepRow none)
        ++ (rest.head?.map fun b =>
          { offset := size p, content := Listing.stopContent b : Listing.Row }).toList := by
      unfold Listing.disassembly
      rw [Listing.rows_layout hrest, Listing.stopRow?_layout hrest]
    rw [← hrows]
    exact Listing.read?_render fun row hrow => feed_not_mem_disassembly hrow
  in_order := by
    rw [sweep_layout hrest, List.map_map, List.map_map]
    refine List.map_congr_left ?_
    intro step _
    exact congrArg (step.1, ·) (Word.text_ofInstruction step.2).symm
  located := by
    intro row hrow
    obtain ⟨step, hstep, rfl⟩ := List.mem_map.mp hrow
    have hswept : (step.1, Word.ofInstruction step.2) ∈ (Word.sweep (encode p ++ rest)).steps := by
      rw [sweep_layout hrest]
      exact List.mem_map_of_mem hstep
    obtain ⟨hword, hpos⟩ := Word.readAt_of_mem_sweepFrom hswept
    refine ⟨_, _, rfl, hpos, ?_⟩
    show step.2.text = (Word.readAt (encode p ++ rest) step.1).1.text
    rw [hword, Word.text_ofInstruction]
  assembled := by
    rw [map_content_stepRow, Assembly.assemble_texts]
    exact congrArg Except.ok List.take_left.symm
  extra_iff := by
    rw [List.length_append, length_encode]
    cases rest with
    | nil => simp
    | cons b rest => simp
  extra_names := by
    intro row hrow
    obtain ⟨b, hb, rfl⟩ := Option.map_eq_some_iff.mp hrow
    refine ⟨rfl, b, ?_, ?_⟩
    · rw [List.getElem?_append_right (Nat.le_of_eq (length_encode p)), length_encode, Nat.sub_self,
        ← List.head?_eq_getElem?, hb]
    · intro c
      exact ⟨fun hname => (Listing.stopContent_injective hname).symm, fun hc => by rw [hc]⟩

/-- **Assembling undoes disassembling.** The disassembly of any code shows the longest prefix that is made
up of whole instructions, at their offsets, and names the byte behind it if there is one. Its instructions
assemble to that prefix; for a valid program that is all of the code. -/
theorem disassembly_reassembles (code : List UInt8) :
    ∃ n rows extra, Reassembles code n rows extra
      ∧ (validate code = .ok () →
          Assembly.assemble (Text.ofString (String.intercalate "\n" (rows.map (·.content)))) = .ok code) := by
  obtain ⟨p, rest, hcode, hrest⟩ := exists_layout code
  have h := reassembles_layout hrest p
  rw [← hcode] at h
  refine ⟨_, _, _, h, ?_⟩
  intro hvalid
  -- valid code is itself a prefix of whole instructions, so the longest one is no shorter
  have hwhole : ∃ words, Word.encodeAll? words = some (code.take code.length) := by
    rw [List.take_length]
    exact exists_encodeAll?_iff.mpr (validate_eq_ok_iff.mp hvalid)
  have hle : code.length ≤ size p := h.longest.longest code.length (Nat.le_refl _) hwhole
  rw [h.assembled, List.take_of_length_le hle]

/-- A byte that is no opcode behind two whole instructions gets a row of its own, and is not assembled. -/
theorem disassembly_before_stray_byte_reassembles :
    ∃ rows row, Listing.read? (Listing.disassemble [2, 4, 0, 1, 3, 3, 7, 9]) = some (rows ++ [row])
      ∧ row.offset = 7 ∧ row.content = "UNKNOWN(0x09)"
      ∧ Assembly.assemble (Text.ofString (String.intercalate "\n" (rows.map (·.content))))
        = .ok [2, 4, 0, 1, 3, 3, 7] := by
  have hstray : Instruction.read? [9] = none := rfl
  obtain ⟨n, rows, extra, h, _⟩ := disassembly_reassembles [2, 4, 0, 1, 3, 3, 7, 9]
  obtain rfl : n = 7 := h.longest.unique (longestPrefix_layout hstray [.pixel 4 0 1 3, .delay 7])
  obtain ⟨row, rfl⟩ := Option.isSome_iff_exists.mp (h.extra_iff.mpr (by decide))
  obtain ⟨hoffset, b, hb, hname⟩ := h.extra_names row rfl
  have hcontent : row.content = "UNKNOWN(0x09)" := (hname 9).mpr (Option.some.inj hb)
  exact ⟨rows, row, h.read_back, hoffset, hcontent, h.assembled⟩

end StripSequencer
