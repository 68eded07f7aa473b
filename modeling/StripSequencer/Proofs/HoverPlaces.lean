import StripSequencer.Proofs.CursorWords
import StripSequencer.Proofs.HoverOffsets

/-!
# `StripSequencer.Proofs.HoverPlaces` — the positions that have a hover

There is a hover where the word at the position is the mnemonic of the line. The two are compared by their letters
and not by their places: a hover may be off the first token of its line, on a later word that spells the mnemonic
again. These are all the hovers off the first token, and in a line that assembles such a word stands in the comment.

## Contents
- `firstToken`, with `fields_uncommented`: the first token of a line before its comment, and where it is.
- `word_on_token_or_beyond`: where a word that is a mnemonic can be.
- `comment_of_beyond`: in a line that assembles no word of an operand is a mnemonic.
- `OnFirstToken`, `Repeated`, `hover_off_token_iff_repeated`, and a position in a comment: `hover_in_comment`.
-/

namespace StripSequencer.LanguageServer

open Assembly

/-! ## The first token of a line -/

/-- A glyph that is neither blank nor the start of a comment. -/
def isSolid (g : Glyph) : Bool := !g.isBlank && decide (g ≠ .char '#')

/-- The blanks at the front of a line. -/
def indent (line : Text) : Text := line.takeWhile Glyph.isBlank

/-- The first token of a line before its comment; empty if there is none. -/
def firstToken (line : Text) : Text := (line.dropWhile Glyph.isBlank).takeWhile isSolid

/-- What follows the first token. -/
def afterToken (line : Text) : Text := (line.dropWhile Glyph.isBlank).dropWhile isSolid

/-- The comment of a line, from its `#` on. -/
def comment (line : Text) : Text := line.dropWhile (· ≠ .char '#')

/-- Where the first token begins. -/
def tokenStart (line : Text) : Nat := (indent line).bytes.length

/-- Where the first token ends. -/
def tokenStop (line : Text) : Nat := tokenStart line + (firstToken line).bytes.length

section Parts

variable (line : Text)

theorem line_eq : line = indent line ++ (firstToken line ++ afterToken line) := by
  unfold indent firstToken afterToken
  rw [List.takeWhile_append_dropWhile, List.takeWhile_append_dropWhile]

theorem uncommented_append_comment : line = uncommented line ++ comment line :=
  List.takeWhile_append_dropWhile.symm

theorem isBlank_of_mem_indent {g : Glyph} (h : g ∈ indent line) : g.isBlank = true :=
  List.all_eq_true.mp List.all_takeWhile g h

theorem isSolid_of_mem_firstToken {g : Glyph} (h : g ∈ firstToken line) :
    g.isBlank = false ∧ g ≠ .char '#' := by
  have hsolid : isSolid g = true := List.all_eq_true.mp List.all_takeWhile g h
  simpa [isSolid] using hsolid

/-- The first token ends at a blank, at a comment or at the end of the line. -/
theorem head_afterToken {g : Glyph} (h : g ∈ (afterToken line).head?) : g.isBlank = true ∨ g = .char '#' := by
  have hnot := List.head?_dropWhile_not isSolid (line.dropWhile Glyph.isBlank)
  unfold afterToken at h
  rw [Option.mem_def.mp h] at hnot
  have hsolid : isSolid g = false := hnot
  simpa [isSolid, Decidable.or_iff_not_imp_left] using hsolid

theorem comment_not_mem_indent : Glyph.char '#' ∉ indent line := by
  intro h
  have hblank := isBlank_of_mem_indent line h
  exact absurd hblank (by decide)

/-- The line before its comment has the same first token. -/
theorem uncommented_eq : uncommented line = indent line ++ (firstToken line ++ uncommented (afterToken line)) := by
  have hindent : ∀ g ∈ indent line, decide (g ≠ .char '#') = true := by
    intro g hg
    apply decide_eq_true
    rintro rfl
    exact comment_not_mem_indent line hg
  have htoken : ∀ g ∈ firstToken line, decide (g ≠ .char '#') = true := by
    intro g hg
    exact decide_eq_true (isSolid_of_mem_firstToken line hg).2
  have hline := congrArg uncommented (line_eq line)
  unfold uncommented at hline ⊢
  rwa [List.takeWhile_append_of_pos hindent, List.takeWhile_append_of_pos htoken] at hline

/-- What follows the first token before the comment is empty or begins with a blank. -/
theorem head_uncommented_afterToken {g : Glyph} (h : g ∈ (uncommented (afterToken line)).head?) :
    g ∈ (afterToken line).head? ∧ g.isBlank = true := by
  cases hafter : afterToken line with
  | nil =>
    rw [hafter] at h
    cases h
  | cons g' rest =>
    have hhead := head_afterToken line (by rw [hafter]; rfl)
    rw [hafter] at h
    by_cases hcomment : g' = .char '#'
    · simp [uncommented, hcomment] at h
    · have heq : g' = g := by simpa [uncommented, List.takeWhile_cons, hcomment] using h
      rw [heq] at hhead hcomment ⊢
      exact ⟨rfl, hhead.resolve_right hcomment⟩

/-- A line without a first token has nothing but blanks before its comment. -/
theorem uncommented_afterToken_eq_nil (h : firstToken line = []) : uncommented (afterToken line) = [] := by
  cases hrest : uncommented (afterToken line) with
  | nil => rfl
  | cons g rest =>
    obtain ⟨hhead, hblank⟩ := head_uncommented_afterToken line (by rw [hrest]; rfl)
    -- with no token in between, the same glyph is the first one after the indent, and not blank
    have hafter : afterToken line = line.dropWhile Glyph.isBlank := by
      have happend : firstToken line ++ afterToken line = line.dropWhile Glyph.isBlank :=
        List.takeWhile_append_dropWhile
      rwa [h, List.nil_append] at happend
    have hnot := List.head?_dropWhile_not Glyph.isBlank line
    rw [← hafter, Option.mem_def.mp hhead] at hnot
    have hfalse : g.isBlank = false := hnot
    rw [hblank] at hfalse
    cases hfalse

/-- **The first field of a line before its comment is its first token.** -/
theorem fields_uncommented :
    (uncommented line).fields
      = if firstToken line = [] then [] else firstToken line :: (uncommented (afterToken line)).fields := by
  rw [uncommented_eq, Text.fields_blanks_append fun g hg => isBlank_of_mem_indent line hg]
  split
  · next hnone =>
    rw [hnone, uncommented_afterToken_eq_nil line hnone]
    rfl
  · next hsome =>
    apply Text.fields_word_append hsome
    · intro g hg
      exact (isSolid_of_mem_firstToken line hg).1
    · intro g hg
      exact (head_uncommented_afterToken line hg).2

theorem fields_uncommented_of_cons {line token : Text} {args : List Text}
    (h : (uncommented line).fields = token :: args) :
    firstToken line = token ∧ firstToken line ≠ [] ∧ (uncommented (afterToken line)).fields = args := by
  rw [fields_uncommented] at h
  split at h
  · cases h
  · next hsome =>
    obtain ⟨htoken, hargs⟩ := List.cons.inj h
    exact ⟨htoken, hsome, hargs⟩

end Parts

/-! ## Letters around the first token -/

/-- The bytes of blanks and of the start of a comment are no letters. -/
theorem not_isLetter_of_mem {g : Glyph} (hg : g.isBlank = true ∨ g = .char '#') {b : UInt8} (hb : b ∈ g.bytes) :
    ¬ IsLetter b := by
  intro hletter
  unfold IsLetter at hletter
  rcases hg with hblank | rfl
  · obtain ⟨c, rfl, hc⟩ := Glyph.exists_char_of_isBlank hblank
    have hvalue := eq_of_mem_bytes_char hb (by omega)
    rw [isBlankChar_iff] at hc
    omega
  · have hvalue : '#'.toNat = b.toNat := eq_of_mem_bytes_char hb (by omega)
    have hnumber : '#'.toNat = 0x23 := rfl
    omega

/-- The byte where a part of the line ends is the first byte of the glyph that follows. -/
theorem exists_glyph_at_end {line front back : Text} (hline : line = front ++ back) {b : UInt8}
    (hb : line.bytes[front.bytes.length]? = some b) : ∃ g ∈ back.head?, b ∈ g.bytes := by
  rw [hline, Text.bytes_append, List.getElem?_append_right (Nat.le_refl _), Nat.sub_self] at hb
  cases back with
  | nil => cases hb
  | cons g back =>
    refine ⟨g, rfl, ?_⟩
    have hpos : 0 < g.bytes.length := List.length_pos_iff.mpr g.bytes_ne_nil
    rw [Text.bytes_cons, List.getElem?_append_left hpos] at hb
    exact List.mem_of_getElem? hb

section Places

variable {line : Text} {b : UInt8}

theorem not_isLetter_before_token {k : Nat} (hk : k < tokenStart line) (hb : line.bytes[k]? = some b) :
    ¬ IsLetter b := by
  have hbytes : line.bytes = (indent line).bytes ++ (firstToken line ++ afterToken line).bytes := by
    rw [← Text.bytes_append, ← line_eq]
  rw [hbytes, List.getElem?_append_left hk] at hb
  obtain ⟨g, hg, hbg⟩ := List.mem_flatMap.mp (List.mem_of_getElem? hb)
  exact not_isLetter_of_mem (.inl (isBlank_of_mem_indent line hg)) hbg

theorem not_isLetter_at_tokenStop (hb : line.bytes[tokenStop line]? = some b) : ¬ IsLetter b := by
  have hline : line = (indent line ++ firstToken line) ++ afterToken line := by
    rw [List.append_assoc]
    exact line_eq line
  have hstop : tokenStop line = (indent line ++ firstToken line).bytes.length := by
    simp [tokenStop, tokenStart]
  rw [hstop] at hb
  obtain ⟨g, hg, hbg⟩ := exists_glyph_at_end hline hb
  exact not_isLetter_of_mem (head_afterToken line hg) hbg

theorem not_isLetter_at_comment (hb : line.bytes[(uncommented line).bytes.length]? = some b) : ¬ IsLetter b := by
  obtain ⟨g, hg, hbg⟩ := exists_glyph_at_end (uncommented_append_comment line) hb
  unfold comment at hg
  have hnot := List.head?_dropWhile_not (fun g : Glyph => decide (g ≠ .char '#')) line
  rw [Option.mem_def.mp hg] at hnot
  have hcomment : g = .char '#' := by simpa using hnot
  exact not_isLetter_of_mem (.inr hcomment) hbg

end Places

section Words

variable {line : Text} {column : Nat} {op : Opcode}

/-- Within a word that is a mnemonic every byte is a letter. -/
theorem exists_letter_of_mnemonic (hop : opcode? (Text.ofBytes (wordAt line column)) = some op) {k : Nat}
    (hlow : wordStart line column ≤ k) (hhigh : k < wordStop line column) :
    ∃ b, line.bytes[k]? = some b ∧ IsLetter b := by
  obtain ⟨b, hmem, hb⟩ := exists_mem_wordAt line column hlow hhigh
  obtain ⟨hletters, -⟩ := letters_of_opcode? (fun b => isWordByte_of_mem_wordAt line column) hop
  exact ⟨b, hb, hletters b hmem⟩

/-- **Where a mnemonic can be**: on the first token, or beyond it and what ends it. -/
theorem word_on_token_or_beyond (hop : opcode? (Text.ofBytes (wordAt line column)) = some op) :
    tokenStart line ≤ wordStart line column ∧ wordStop line column ≤ tokenStop line
      ∨ tokenStop line < wordStart line column := by
  have hne : wordStart line column < wordStop line column := by
    obtain ⟨-, b, hb, -⟩ := letters_of_opcode? (fun b => isWordByte_of_mem_wordAt line column) hop
    have hpos := List.length_pos_of_mem hb
    unfold wordStop
    omega
  have hstart : tokenStart line ≤ wordStart line column := by
    apply Nat.le_of_not_lt
    intro hlt
    obtain ⟨b, hb, hletter⟩ := exists_letter_of_mnemonic hop (Nat.le_refl _) hne
    exact not_isLetter_before_token hlt hb hletter
  -- the byte that ends the token is not in the word
  by_cases hstop : wordStop line column ≤ tokenStop line
  · exact .inl ⟨hstart, hstop⟩
  · right
    apply Nat.lt_of_not_le
    intro hle
    obtain ⟨b, hb, hletter⟩ := exists_letter_of_mnemonic hop hle (Nat.lt_of_not_le hstop)
    exact not_isLetter_at_tokenStop hb hletter

/-- A mnemonic before the comment ends before it. -/
theorem wordStop_le_of_cursor_le (hop : opcode? (Text.ofBytes (wordAt line column)) = some op)
    (h : cursor line column ≤ (uncommented line).bytes.length) :
    wordStop line column ≤ (uncommented line).bytes.length := by
  obtain ⟨-, hstart, -⟩ := bytes_around_word line column
  apply Nat.le_of_not_lt
  intro hlt
  obtain ⟨b, hb, hletter⟩ := exists_letter_of_mnemonic hop (Nat.le_trans hstart h) hlt
  exact not_isLetter_at_comment hb hletter

end Words

/-! ## Operands hold no mnemonics -/

theorem exists_read_of_mapM {args : List Text} {bytes : List UInt8} (h : args.mapM operand = .ok bytes) :
    ∀ arg ∈ args, ∃ v, Numeral.read 255 arg = .ok v := by
  induction args generalizing bytes with
  | nil =>
    intro arg harg
    cases harg
  | cons first args ih =>
    rw [List.mapM_cons] at h
    cases hread : Numeral.read 255 first with
    | error flaw =>
      have hoperand : operand first = .error (.badOperand first flaw) := by rw [operand, hread]
      rw [hoperand] at h
      cases h
    | ok v =>
      have hoperand : operand first = .ok (UInt8.ofNat v) := by rw [operand, hread]
      rw [hoperand] at h
      cases hothers : args.mapM operand with
      | error why =>
        rw [hothers] at h
        cases h
      | ok others =>
        intro arg harg
        rcases List.mem_cons.mp harg with rfl | htail
        · exact ⟨v, hread⟩
        · exact ih hothers arg htail

/-- The operands of a line that assembles are numerals. -/
theorem exists_read_of_assembleLine {line token : Text} {args : List Text} {found : Option Instruction}
    (hfields : (uncommented line).fields = token :: args) (h : assembleLine line = .ok found) :
    ∀ arg ∈ args, ∃ v, Numeral.read 255 arg = .ok v := by
  obtain ⟨-, bytes, -, -, hoperands, -⟩ := of_assembleLine hfields h
  exact exists_read_of_mapM hoperands

/-- The letter `l` is in no numeral. -/
theorem not_read_of_mem {limit v : Nat} {t : Text} {g : Glyph} {b : UInt8} (hg : g ∈ t) (hb : b ∈ g.bytes)
    (hl : b.toNat = 0x4C ∨ b.toNat = 0x6C) : Numeral.read limit t ≠ .ok v := by
  intro hread
  have hglyph := Numeral.glyphs_of_read hread g hg
  cases g with
  | char c =>
    have hc : c.toNat = b.toNat := eq_of_mem_bytes_char hb (by omega)
    have hchar : c = 'L' ∨ c = 'l' := by
      rcases hl with hcapital | hsmall
      · exact .inl (Char.toNat_inj.mp (hc.trans hcapital))
      · exact .inr (Char.toNat_inj.mp (hc.trans hsmall))
    rcases hchar with rfl | rfl <;> revert hglyph <;> decide
  | stray b =>
    rcases hglyph with hmark | hsep | ⟨d, -, hdigit⟩
    · cases hmark
    · cases hsep
    · cases hdigit

/-- What stands before the comment and after the first token belongs to the operands and the blanks around them. -/
theorem exists_glyph_beyond_token {line : Text} {k : Nat} {b : UInt8} (hlow : tokenStop line ≤ k)
    (hhigh : k < (uncommented line).bytes.length) (hb : line.bytes[k]? = some b) :
    ∃ g ∈ uncommented (afterToken line), b ∈ g.bytes := by
  have hline : line.bytes = (uncommented line).bytes ++ (comment line).bytes := by
    rw [← Text.bytes_append, ← uncommented_append_comment]
  have hparts : (uncommented line).bytes
      = ((indent line).bytes ++ (firstToken line).bytes) ++ (uncommented (afterToken line)).bytes := by
    have heq := congrArg Text.bytes (uncommented_eq line)
    rwa [Text.bytes_append, Text.bytes_append, ← List.append_assoc] at heq
  have hlength : ((indent line).bytes ++ (firstToken line).bytes).length = tokenStop line := List.length_append
  rw [hline, List.getElem?_append_left hhigh, hparts, List.getElem?_append_right (by omega)] at hb
  exact List.mem_flatMap.mp (List.mem_of_getElem? hb)

/-- **In a line that assembles, a mnemonic beyond the first token is in the comment.** -/
theorem comment_of_beyond {line : Text} {column : Nat} {op : Opcode} {found : Option Instruction}
    (hassembled : assembleLine line = .ok found)
    (hop : opcode? (Text.ofBytes (wordAt line column)) = some op)
    (hbeyond : tokenStop line < wordStart line column) :
    (uncommented line).bytes.length < cursor line column := by
  apply Nat.lt_of_not_le
  intro hle
  have hstop := wordStop_le_of_cursor_le hop hle
  -- one letter of the word, an `l`, is then in an operand
  obtain ⟨hletters, b, hb, hl⟩ := letters_of_opcode? (fun b => isWordByte_of_mem_wordAt line column) hop
  obtain ⟨k, hlow, hhigh, hk⟩ := exists_index_of_mem_wordAt line column hb
  obtain ⟨g, hg, hbg⟩ := exists_glyph_beyond_token (by omega) (by omega) hk
  have hsolid : g.isBlank = false := by
    rw [← Bool.not_eq_true]
    intro hblank
    exact not_isLetter_of_mem (.inl hblank) hbg (hletters b hb)
  obtain ⟨arg, harg, hgarg⟩ := Text.exists_field_of_mem hg hsolid
  have htoken : firstToken line ≠ [] := by
    intro hnone
    rw [uncommented_afterToken_eq_nil line hnone] at hg
    cases hg
  have hfields := fields_uncommented line
  rw [if_neg htoken] at hfields
  obtain ⟨v, hread⟩ := exists_read_of_assembleLine hfields hassembled arg harg
  exact not_read_of_mem hgarg hbg hl hread

/-! ## Hovers off the first token -/

/-- The column is on the first token of the line, or at one of its ends. -/
def OnFirstToken (line : Text) (column : Nat) : Prop :=
  firstToken line ≠ [] ∧ tokenStart line ≤ cursor line column ∧ cursor line column ≤ tokenStop line

instance (line : Text) (column : Nat) : Decidable (OnFirstToken line column) :=
  inferInstanceAs (Decidable (_ ∧ _))

/-- The column is inside the comment of the line. -/
def InComment (line : Text) (column : Nat) : Prop := (uncommented line).bytes.length < cursor line column

instance (line : Text) (column : Nat) : Decidable (InComment line column) :=
  inferInstanceAs (Decidable (_ < _))

/-- The word at the column is beyond the first token, and both are the same mnemonic. -/
def Repeated (line : Text) (column : Nat) : Prop :=
  tokenStop line < wordStart line column
    ∧ ∃ op, opcode? (firstToken line) = some op ∧ opcode? (Text.ofBytes (wordAt line column)) = some op

theorem ne_nil_of_opcode? {token : Text} {op : Opcode} (h : opcode? token = some op) : token ≠ [] := by
  rintro rfl
  cases h

theorem not_onFirstToken_of_beyond {line : Text} {column : Nat} (h : tokenStop line < wordStart line column) :
    ¬ OnFirstToken line column := by
  rintro ⟨-, -, hstop⟩
  obtain ⟨-, hstart, -⟩ := bytes_around_word line column
  omega

/-- There is a hover exactly if the word at the position and the first token of its line are the same mnemonic. -/
theorem exists_hover_iff {document : Text} {p : Position} :
    (∃ h, hover? document p = some h) ↔
      ∃ op, opcode? (firstToken (lineAt document p.line)) = some op
        ∧ opcode? (Text.ofBytes (wordAt (lineAt document p.line) p.column)) = some op := by
  constructor
  · rintro ⟨h, hhover⟩
    obtain ⟨⟨token, args, hfields, htoken, hword⟩, -⟩ := hover?_eq_some_iff.mp hhover
    obtain ⟨rfl, -, -⟩ := fields_uncommented_of_cons hfields
    exact ⟨h.op, htoken, hword⟩
  · rintro ⟨op, htoken, hword⟩
    have hfields := fields_uncommented (lineAt document p.line)
    rw [if_neg (ne_nil_of_opcode? htoken)] at hfields
    refine ⟨⟨op, offsetOfLine document p.line⟩, ?_⟩
    exact hover?_eq_some_iff.mpr ⟨⟨_, _, hfields, htoken, hword⟩, rfl⟩

/-- **Hovers off the first token of their line are those on a word beyond it that is the same mnemonic.** In a line
that assembles such a word is in the comment. -/
theorem hover_off_token_iff_repeated (document : Text) (p : Position) :
    ((∃ h, hover? document p = some h) ∧ ¬ OnFirstToken (lineAt document p.line) p.column ↔
        Repeated (lineAt document p.line) p.column)
      ∧ (∀ i, assembleLine (lineAt document p.line) = .ok i → Repeated (lineAt document p.line) p.column →
        InComment (lineAt document p.line) p.column) := by
  refine ⟨⟨?_, ?_⟩, ?_⟩
  · rintro ⟨hhover, hoff⟩
    obtain ⟨op, htoken, hword⟩ := exists_hover_iff.mp hhover
    refine ⟨?_, op, htoken, hword⟩
    rcases word_on_token_or_beyond hword with ⟨hstart, hstop⟩ | hbeyond
    · obtain ⟨-, hlow, hhigh⟩ := bytes_around_word (lineAt document p.line) p.column
      have hon : OnFirstToken (lineAt document p.line) p.column :=
        ⟨ne_nil_of_opcode? htoken, Nat.le_trans hstart hlow, Nat.le_trans hhigh hstop⟩
      exact absurd hon hoff
    · exact hbeyond
  · rintro ⟨hbeyond, hsame⟩
    exact ⟨exists_hover_iff.mpr hsame, not_onFirstToken_of_beyond hbeyond⟩
  · rintro i hassembled ⟨hbeyond, op, -, hword⟩
    exact comment_of_beyond hassembled hword hbeyond

/-- A line that says its mnemonic again in its comment, in other letters. -/
def remarkDocument : Text := Text.ofString "delay 5\n\tALL 1 2 3 # turn all white"

/-- The word of the comment repeats the mnemonic of its line. -/
theorem remark_repeats_mnemonic :
    hover? remarkDocument ⟨1, 19⟩ = some ⟨.all, 2⟩ ∧ Repeated (lineAt remarkDocument 1) 19
      ∧ InComment (lineAt remarkDocument 1) 19 := by
  have hhover : hover? remarkDocument ⟨1, 19⟩ = some ⟨.all, 2⟩ := by decide +kernel
  have hoff : ¬ OnFirstToken (lineAt remarkDocument 1) 19 := by decide +kernel
  have hassembled : assembleLine (lineAt remarkDocument 1) = .ok (some (.all 1 2 3)) := rfl
  obtain ⟨hiff, hcomment⟩ := hover_off_token_iff_repeated remarkDocument ⟨1, 19⟩
  have hrepeated := hiff.mp ⟨⟨_, hhover⟩, hoff⟩
  exact ⟨hhover, hrepeated, hcomment _ hassembled hrepeated⟩

/-- A position in a comment that repeats the mnemonic of its line has a hover. -/
theorem hover_in_comment :
    hover? (Text.ofString "clear # clear") ⟨0, 10⟩ = some ⟨.clear, 0⟩
      ∧ InComment (lineAt (Text.ofString "clear # clear") 0) 10
      ∧ ¬ OnFirstToken (lineAt (Text.ofString "clear # clear") 0) 10 := by
  decide +kernel

end StripSequencer.LanguageServer
