import StripSequencer.LanguageServer.Cursor
import StripSequencer.Proofs.LineByLine
import StripSequencer.Proofs.ListingText

/-!
# `StripSequencer.Proofs.HoverOffsets` — a hover tells where its instruction is stored

The description of an instruction names its opcode, the number of its bytes and the offset that it will be stored
at. The offset is a sum over the lines above it, made without assembling the text; if every line of the text
assembles, it is the offset at which the assembled program holds the instruction of the line.

## Contents
- `assembleLines_eq_ok`: lines that all assemble, with `code_around_line`: the code before and after a line.
- `hover?_eq_some_iff`: when there is a hover.
- `Description.read?`, with `read?_text`: what the text of a hover says.
- `hover_tells_stored_instruction`.
-/

namespace StripSequencer

open Program

/-! ## The instructions of lines that assemble -/

namespace Assembly

/-- The instruction of a line, if the line assembles and has one. -/
def instruction? (line : Text) : Option Instruction :=
  match assembleLine line with
  | .ok found => found
  | .error _ => none

theorem instruction?_of_ok {line : Text} {found : Option Instruction} (h : assembleLine line = .ok found) :
    instruction? line = found := by
  simp [instruction?, h]

/-- Lines that all assemble give the instructions of those that have one, in order. -/
theorem assembleLines_eq_ok {lines : List Text} (h : ∀ line ∈ lines, ∃ found, assembleLine line = .ok found)
    (number : Nat) : assembleLines number lines = .ok (lines.filterMap instruction?) := by
  induction lines generalizing number with
  | nil => rfl
  | cons line rest ih =>
    obtain ⟨found, hfound⟩ := h line List.mem_cons_self
    have hrest := ih (fun l hl => h l (List.mem_cons_of_mem line hl)) (number + 1)
    have hinstruction := instruction?_of_ok hfound
    rw [assembleLines, hfound, hrest]
    cases found with
    | none => simp [hinstruction]
    | some i => simp [hinstruction, Except.map]

/-- **What it takes for a line with a token to assemble**: a mnemonic, as many operands as it has, and each of them
read. -/
theorem of_assembleLine {line token : Text} {args : List Text} {found : Option Instruction}
    (hfields : (uncommented line).fields = token :: args) (h : assembleLine line = .ok found) :
    ∃ op bytes, opcode? token = some op ∧ args.length = op.operandCount ∧ args.mapM operand = .ok bytes
      ∧ found = some (Instruction.ofPayload op (Payload.ofList bytes)) := by
  unfold assembleLine at h
  simp only [hfields] at h
  cases hop : opcode? token with
  | none =>
    rw [hop] at h
    cases h
  | some op =>
    simp only [hop] at h
    split at h
    · cases h
    · next hcount =>
      cases hoperands : args.mapM operand with
      | error why =>
        rw [hoperands] at h
        cases h
      | ok bytes =>
        rw [hoperands] at h
        cases h
        exact ⟨op, bytes, rfl, Decidable.not_not.mp hcount, rfl, rfl⟩

/-- The opcode of the first token is that of the instruction, and a line with a token has an instruction. -/
theorem opcode_of_assembleLine {line token : Text} {args : List Text} {op : Opcode} {found : Option Instruction}
    (hfields : (uncommented line).fields = token :: args) (hop : opcode? token = some op)
    (h : assembleLine line = .ok found) : ∃ i, found = some i ∧ i.opcode = op := by
  obtain ⟨op', bytes, hop', -, -, hfound⟩ := of_assembleLine hfields h
  obtain rfl : op' = op := Option.some.inj (hop'.symm.trans hop)
  exact ⟨_, hfound, Instruction.opcode_ofPayload op' _⟩

end Assembly

namespace LanguageServer

open Assembly

/-- The bytes of lines are those of their instructions. -/
theorem foldr_lineSize (lines : List Text) :
    (lines.map lineSize).foldr (· + ·) 0 = size (lines.filterMap instruction?) := by
  induction lines with
  | nil => rfl
  | cons line rest ih =>
    rw [List.map_cons, List.foldr_cons, ih]
    unfold lineSize
    cases h : assembleLine line with
    | error why => simp [instruction?, h]
    | ok found =>
      have hinstruction := instruction?_of_ok h
      cases found with
      | none => simp [hinstruction]
      | some i => simp [hinstruction]

/-- **The code around a line.** If all lines assemble, as many bytes as `offsetOfLine` says stand before the
instruction of a line. -/
theorem code_around_line {document line : Text} {n : Nat} {i : Instruction}
    (hlines : ∀ line ∈ document.lines, ∃ found, assembleLine line = .ok found)
    (hline : document.lines[n]? = some line) (hi : assembleLine line = .ok (some i)) :
    ∃ before after, assemble document = .ok (encode before ++ i.encode ++ encode after)
      ∧ size before = offsetOfLine document n := by
  obtain ⟨hlt, hget⟩ := List.getElem?_eq_some_iff.mp hline
  have hsplit : document.lines = document.lines.take n ++ line :: document.lines.drop (n + 1) := by
    rw [← hget, ← List.drop_eq_getElem_cons hlt, List.take_append_drop]
  have hprogram := congrArg (List.filterMap instruction?) hsplit
  rw [List.filterMap_append, List.filterMap_cons_some (instruction?_of_ok hi)] at hprogram
  refine ⟨(document.lines.take n).filterMap instruction?, (document.lines.drop (n + 1)).filterMap instruction?,
    ?_, (foldr_lineSize _).symm⟩
  unfold assemble assembleProgram
  rw [assembleLines_eq_ok hlines, hprogram]
  simp [Except.map]

/-! ## When there is a hover -/

/-- There is a hover exactly if the word at the position and the first token of the line are one mnemonic. -/
theorem hover?_eq_some_iff {document : Text} {p : Position} {h : Hover} :
    hover? document p = some h
      ↔ (∃ token args, (uncommented (lineAt document p.line)).fields = token :: args
          ∧ opcode? token = some h.op
          ∧ opcode? (Text.ofBytes (wordAt (lineAt document p.line) p.column)) = some h.op)
        ∧ h.offset = offsetOfLine document p.line := by
  unfold hover?
  cases hfields : (uncommented (lineAt document p.line)).fields with
  | nil => simp [hfields]
  | cons token args =>
    cases hword : opcode? (Text.ofBytes (wordAt (lineAt document p.line) p.column)) with
    | none => simp [hfields, hword]
    | some op =>
      obtain ⟨op', offset⟩ := h
      simp only [hfields, hword]
      constructor
      · intro hsome
        split at hsome
        · next htoken =>
          cases hsome
          exact ⟨⟨token, args, rfl, htoken, rfl⟩, rfl⟩
        · cases hsome
      · rintro ⟨⟨token', args', heq, htoken, hop⟩, rfl⟩
        cases heq
        cases hop
        rw [if_pos htoken]

/-! ## What the text of a hover says -/

/-- What the description of an instruction tells its reader. -/
structure Description where
  /-- The name of the opcode. -/
  name : String
  /-- The byte of the opcode. -/
  code : Nat
  /-- The number of bytes of the instruction. -/
  bytes : Nat
  offset : Nat
deriving DecidableEq, Repr

/-- Reads the first line of a description: the name stands between backquotes, and the byte after it. -/
def Description.readOpcode? (line : List Char) : Option (String × Nat) :=
  match segments (· = '`') line with
  | [_, name, [' ', '(', '0', 'x', high, low, ')']] =>
    (Hexadecimal.value? [high, low]).map fun code => (String.ofList name, code)
  | _ => none

/-- Reads the last line of a description: the number of bytes and the offset. -/
def Description.readPlace? (line : List Char) : Option (Nat × Nat) :=
  match segments (· = ' ') line with
  | [bytes, unit, preposition, noun, '0' :: 'x' :: digits] =>
    if [unit, preposition, noun] = ["bytes".toList, "at".toList, "offset".toList] then
      match Listing.decimal? bytes, Hexadecimal.value? digits with
      | some bytes, some offset => some (bytes, offset)
      | _, _ => none
    else none
  | _ => none

/-- Reads a description from the first and the last line of its text. -/
def Description.read? (text : String) : Option Description :=
  let lines := segments (· = '\n') text.toList
  match lines.head?.bind readOpcode?, lines.getLast?.bind readPlace? with
  | some (name, code), some (bytes, offset) => some ⟨name, code, bytes, offset⟩
  | _, _ => none

/-- The first line of the text of a hover. -/
def opcodeLine (op : Opcode) : List Char :=
  "**".toList ++ op.mnemonic.toList ++ "** `".toList ++ op.name.toList ++ "` (0x".toList
    ++ (Hexadecimal.byte op.code).toList ++ ")".toList

/-- What stands between the first and the last line of the text of a hover. -/
def operandLines (op : Opcode) : List Char :=
  if op.operandNames.isEmpty then []
  else "\nOperands: `".toList ++ (String.intercalate " " op.operandNames).toList ++ "`\n".toList

/-- The last line of the text of a hover. -/
def placeLine (bytes offset : Nat) : List Char :=
  (toString bytes).toList ++ " bytes at offset 0x".toList ++ (Hexadecimal.offset offset).toList

theorem toList_text (h : Hover) :
    h.text.toList = opcodeLine h.op ++ '\n' :: (operandLines h.op ++ '\n' :: placeLine h.op.size h.offset) := by
  unfold Hover.text opcodeLine operandLines placeLine
  cases h.op.operandNames.isEmpty <;> simp

theorem readOpcode?_opcodeLine (op : Opcode) :
    '\n' ∉ opcodeLine op ∧ Description.readOpcode? (opcodeLine op) = some (op.name, op.code.toNat) := by
  cases op <;> decide

/-- The last line consists of words with blanks between them. -/
theorem segments_placeLine (bytes offset : Nat) :
    segments (· = ' ') (placeLine bytes offset)
      = [(toString bytes).toList, "bytes".toList, "at".toList, "offset".toList,
          '0' :: 'x' :: (Hexadecimal.offset offset).toList] := by
  have hdigits : ∀ c ∈ (toString bytes).toList, decide (c = ' ') = false := by
    intro c hc
    apply decide_eq_false
    rintro rfl
    exact Listing.not_mem_toString (by decide) bytes hc
  have hoffset : ∀ c ∈ '0' :: 'x' :: (Hexadecimal.offset offset).toList, decide (c = ' ') = false := by
    intro c hc
    apply decide_eq_false
    rintro rfl
    simp only [List.mem_cons, Char.reduceEq, false_or] at hc
    exact Hexadecimal.not_mem_upper (by decide) 4 offset hc
  have hline : placeLine bytes offset
      = (toString bytes).toList ++ ' ' :: ("bytes at offset".toList
        ++ ' ' :: '0' :: 'x' :: (Hexadecimal.offset offset).toList) := by
    simp [placeLine]
  have hwords : segments (· = ' ') "bytes at offset".toList
      = ["bytes".toList, "at".toList, "offset".toList] := by decide
  rw [hline, segments_append_cons hdigits (by decide), segments_append _ (by decide), hwords,
    segments_of_forall_not hoffset]
  rfl

theorem readPlace?_placeLine (bytes offset : Nat) :
    Description.readPlace? (placeLine bytes offset) = some (bytes, offset) := by
  have hvalue : Hexadecimal.value? (Hexadecimal.offset offset).toList = some offset :=
    Hexadecimal.value?_upper 4 offset
  unfold Description.readPlace?
  rw [segments_placeLine]
  simp only [Listing.decimal?_toString, hvalue]
  rfl

theorem feed_not_mem_placeLine (bytes offset : Nat) : '\n' ∉ placeLine bytes offset := by
  have hdigits : '\n' ∉ (toString bytes).toList := Listing.not_mem_toString (by decide) bytes
  have hoffset : '\n' ∉ (Hexadecimal.offset offset).toList := Hexadecimal.not_mem_upper (by decide) 4 offset
  have hwords : '\n' ∉ " bytes at offset 0x".toList := by decide
  unfold placeLine
  simp only [List.mem_append, hdigits, hwords, hoffset, or_self, not_false_eq_true]

/-- **The text of a hover tells its opcode, its size and its offset.** -/
theorem read?_text (h : Hover) :
    Description.read? h.text = some ⟨h.op.name, h.op.code.toNat, h.op.size, h.offset⟩ := by
  obtain ⟨hfeed, hopcode⟩ := readOpcode?_opcodeLine h.op
  have hplace := readPlace?_placeLine h.op.size h.offset
  have hlines : segments (· = '\n') h.text.toList
      = (opcodeLine h.op :: segments (· = '\n') (operandLines h.op)) ++ [placeLine h.op.size h.offset] := by
    have hfirst : ∀ c ∈ opcodeLine h.op, decide (c = '\n') = false := by
      intro c hc
      apply decide_eq_false
      rintro rfl
      exact hfeed hc
    have hlast : ∀ c ∈ placeLine h.op.size h.offset, decide (c = '\n') = false := by
      intro c hc
      apply decide_eq_false
      rintro rfl
      exact feed_not_mem_placeLine h.op.size h.offset hc
    rw [toList_text, segments_append_cons hfirst (by decide), segments_append _ (by decide),
      segments_of_forall_not hlast]
    rfl
  have hhead : (segments (· = '\n') h.text.toList).head? = some (opcodeLine h.op) := by
    rw [hlines]
    rfl
  have hlast : (segments (· = '\n') h.text.toList).getLast? = some (placeLine h.op.size h.offset) := by
    rw [hlines, List.getLast?_concat]
  unfold Description.read?
  simp only [hhead, hlast, Option.bind_some, hopcode, hplace]

/-! ## The stored instruction -/

/-- **A hover tells where its instruction is stored.** If every line of a document assembles, then so does the
document, and whatever position the hover is for, its text gives the offset at which the code holds the instruction
of the line, the number of bytes of that instruction, and the name and the byte of its opcode. -/
theorem hover_tells_stored_instruction {document : Text} {p : Position} {h : Hover}
    (hlines : ∀ line ∈ document.lines, ∃ found, assembleLine line = .ok found)
    (hhover : hover? document p = some h) :
    ∃ code i told, assemble document = .ok code
      ∧ assembleLine (lineAt document p.line) = .ok (some i)
      ∧ Description.read? h.text = some told
      ∧ Word.readAt code told.offset = (Word.ofInstruction i, told.bytes)
      ∧ told.name = i.opcode.name ∧ told.code = i.opcode.code.toNat := by
  obtain ⟨⟨token, args, hfields, htoken, -⟩, hoffset⟩ := hover?_eq_some_iff.mp hhover
  -- A line with a token is not one of the empty lines beyond the end of the document.
  have hline : document.lines[p.line]? = some (lineAt document p.line) := by
    cases hget : document.lines[p.line]? with
    | none => simp [lineAt, hget, uncommented, Text.fields, segments] at hfields
    | some line => simp [lineAt, hget]
  obtain ⟨found, hfound⟩ := hlines _ (List.mem_of_getElem? hline)
  obtain ⟨i, rfl, hop⟩ := opcode_of_assembleLine hfields htoken hfound
  obtain ⟨before, after, hcode, hbefore⟩ := code_around_line hlines hline hfound
  refine ⟨_, i, _, hcode, hfound, read?_text h, ?_, by rw [hop], by rw [hop]⟩
  have hread : Instruction.read? ((encode before ++ i.encode ++ encode after).drop (size before))
      = some (i, encode after) := by
    rw [List.append_assoc, ← Program.length_encode, List.drop_left, Instruction.read?_encode_append]
  rw [hoffset, ← hbefore, Word.readAt_of_read? hread, ← hop]
  rfl

/-- A document with a comment, an empty line, and a mnemonic in capitals on its last line. -/
def capitalsDocument : Text := Text.ofString "\tPixel 1 0xFF 0 0 # red\n\n  CLEAR"

/-- The position lies beyond the end of the last line, where the word that ends there counts. -/
theorem hover_tells_clear_beyond_line_end :
    hover? capitalsDocument ⟨2, 99⟩ = some ⟨.clear, 5⟩ ∧
    ∃ code i told, assemble capitalsDocument = .ok code
      ∧ assembleLine (lineAt capitalsDocument 2) = .ok (some i)
      ∧ Description.read? (Hover.text ⟨.clear, 5⟩) = some told
      ∧ Word.readAt code told.offset = (Word.ofInstruction i, told.bytes)
      ∧ told.name = i.opcode.name ∧ told.code = i.opcode.code.toNat := by
  have hhover : hover? capitalsDocument ⟨2, 99⟩ = some ⟨.clear, 5⟩ := by decide +kernel
  have hsplit : capitalsDocument.lines
      = [Text.ofString "\tPixel 1 0xFF 0 0 # red", [], Text.ofString "  CLEAR"] := by decide +kernel
  refine ⟨hhover, hover_tells_stored_instruction ?_ hhover⟩
  rw [hsplit]
  intro line hline
  simp only [List.mem_cons, List.not_mem_nil, or_false] at hline
  rcases hline with rfl | rfl | rfl
  · exact ⟨some (.pixel 1 0xFF 0 0), rfl⟩
  · exact ⟨none, rfl⟩
  · exact ⟨some .clear, rfl⟩

end LanguageServer

end StripSequencer
