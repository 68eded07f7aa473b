import StripSequencer.LanguageServer.Cursor
import StripSequencer.Proofs.TextBytes
import StripSequencer.Proofs.Tokens

/-!
# `StripSequencer.Proofs.CursorWords` — the word at a column of a line

A word is a run of bytes, and its bytes need not be whole characters. What is lowered to a mnemonic, however, is
spelt with ASCII letters: the two characters beyond ASCII whose small letters are ASCII letters have bytes that
belong to no word. The last byte of a blank belongs to no word either, but the first one may.

## Contents
- `isWordByte_iff`, `isWordByte_last_of_blank`.
- `cursor`, `wordStart`, `wordStop`, `lead`, with `before_eq`, `bytes_around_word`: the line around the word at a column.
- `IsLetter`, `letters_of_opcode?`: words that are mnemonics.
-/

namespace StripSequencer.LanguageServer

/-! ## The bytes of words -/

theorem isWordByte_iff {b : UInt8} : isWordByte b = true ↔
    (0x30 ≤ b.toNat ∧ b.toNat ≤ 0x39) ∨ (0x41 ≤ b.toNat ∧ b.toNat ≤ 0x5A) ∨ b.toNat = 0x5F
      ∨ (0x61 ≤ b.toNat ∧ b.toNat ≤ 0x7A) ∨ b.toNat = 0xAA ∨ b.toNat = 0xB5 ∨ b.toNat = 0xBA
      ∨ (0xC0 ≤ b.toNat ∧ b.toNat ≠ 0xD7 ∧ b.toNat ≠ 0xF7) := by
  have heq : ∀ c : UInt8, b = c ↔ b.toNat = c.toNat := by
    intro c
    exact UInt8.toNat_inj.symm
  simp [isWordByte, heq, UInt8.le_iff_toNat_le, or_assoc, and_assoc]

/-- A blank ends with a byte that belongs to no word. -/
theorem isWordByte_last_of_blank {g : Glyph} (h : g.isBlank = true) :
    ∃ front b, g.bytes = front ++ [b] ∧ isWordByte b = false := by
  obtain ⟨c, rfl, hc⟩ := Glyph.exists_char_of_isBlank h
  obtain ⟨front, b, hbytes, hb⟩ := exists_last_byte c
  refine ⟨front, b, hbytes, ?_⟩
  rw [← Bool.not_eq_true, isWordByte_iff]
  rw [isBlankChar_iff] at hc
  omega

/-! ## Where the word is -/

/-- A column, as far as the line goes. -/
def cursor (line : Text) (column : Nat) : Nat := min column line.bytes.length

/-- Where the word at a column begins. -/
def wordStart (line : Text) (column : Nat) : Nat := cursor line column - (fragmentAt line column).length

/-- Where the word at a column ends. -/
def wordStop (line : Text) (column : Nat) : Nat := wordStart line column + (wordAt line column).length

/-- The bytes of a line before the word at a column. -/
def lead (line : Text) (column : Nat) : List UInt8 := line.bytes.take (wordStart line column)

section Place

variable (line : Text) (column : Nat)

theorem length_before : (before line column).length = cursor line column := by
  simp [before, cursor]

theorem cursor_le_length : cursor line column ≤ line.bytes.length := Nat.min_le_right _ _

theorem wordStart_le_cursor : wordStart line column ≤ cursor line column := Nat.sub_le _ _

theorem before_eq_take_cursor : before line column = line.bytes.take (cursor line column) := by
  unfold before cursor
  rw [← List.take_eq_take_min]

theorem length_lead : (lead line column).length = wordStart line column := by
  have hstart := wordStart_le_cursor line column
  have hcursor := cursor_le_length line column
  rw [lead, List.length_take]
  omega

/-- What stands before the cursor ends with the fragment. -/
theorem before_eq : before line column = lead line column ++ fragmentAt line column := by
  have hparts : before line column
      = ((before line column).reverse.dropWhile isWordByte).reverse ++ fragmentAt line column := by
    unfold fragmentAt
    rw [← List.reverse_append, List.takeWhile_append_dropWhile, List.reverse_reverse]
  have hlength : ((before line column).reverse.dropWhile isWordByte).reverse.length = wordStart line column := by
    have htotal := congrArg List.length hparts
    rw [length_before, List.length_append] at htotal
    unfold wordStart
    omega
  have hlead : lead line column = ((before line column).reverse.dropWhile isWordByte).reverse := by
    calc lead line column
        = (before line column).take (wordStart line column) := by
          rw [before_eq_take_cursor, List.take_take, Nat.min_eq_left (wordStart_le_cursor line column), lead]
      _ = ((before line column).reverse.dropWhile isWordByte).reverse := by
          rw [hparts, List.take_left' hlength, ← hparts]
  rw [hlead]
  exact hparts

theorem isWordByte_of_mem_fragmentAt {b : UInt8} (h : b ∈ fragmentAt line column) : isWordByte b = true := by
  unfold fragmentAt at h
  rw [List.mem_reverse] at h
  exact List.all_eq_true.mp List.all_takeWhile b h

theorem isWordByte_of_mem_wordAt {b : UInt8} (h : b ∈ wordAt line column) : isWordByte b = true := by
  unfold wordAt at h
  rcases List.mem_append.mp h with hfragment | hrest
  · exact isWordByte_of_mem_fragmentAt line column hfragment
  · exact List.all_eq_true.mp List.all_takeWhile b hrest

/-- **The line around the word at a column**: the word begins at its start, and the cursor is on it. -/
theorem bytes_around_word :
    (∃ front back, line.bytes = front ++ (wordAt line column ++ back) ∧ front.length = wordStart line column)
      ∧ wordStart line column ≤ cursor line column ∧ cursor line column ≤ wordStop line column := by
  have hword : (fragmentAt line column).length ≤ (wordAt line column).length := by
    simp [wordAt]
  refine ⟨⟨lead line column, (line.bytes.drop column).dropWhile isWordByte, ?_, length_lead line column⟩,
    wordStart_le_cursor line column, ?_⟩
  · calc line.bytes
        = before line column ++ line.bytes.drop column := (List.take_append_drop column line.bytes).symm
      _ = lead line column ++ (wordAt line column ++ (line.bytes.drop column).dropWhile isWordByte) := by
        rw [before_eq, wordAt, List.append_assoc, List.append_assoc, List.takeWhile_append_dropWhile]
  · unfold wordStop wordStart
    omega

/-- Every place between the two ends of the word holds one of its bytes. -/
theorem exists_mem_wordAt {k : Nat} (hlow : wordStart line column ≤ k) (hhigh : k < wordStop line column) :
    ∃ b ∈ wordAt line column, line.bytes[k]? = some b := by
  obtain ⟨⟨front, back, hbytes, hfront⟩, -⟩ := bytes_around_word line column
  have hlt : k - front.length < (wordAt line column).length := by
    unfold wordStop at hhigh
    omega
  refine ⟨(wordAt line column)[k - front.length], List.getElem_mem hlt, ?_⟩
  rw [hbytes, List.getElem?_append_right (by omega), List.getElem?_append_left hlt, List.getElem?_eq_getElem hlt]

/-- Every byte of the word is at a place between its two ends. -/
theorem exists_index_of_mem_wordAt {b : UInt8} (h : b ∈ wordAt line column) :
    ∃ k, wordStart line column ≤ k ∧ k < wordStop line column ∧ line.bytes[k]? = some b := by
  obtain ⟨⟨front, back, hbytes, hfront⟩, -⟩ := bytes_around_word line column
  obtain ⟨n, hn, hb⟩ := List.mem_iff_getElem.mp h
  refine ⟨front.length + n, by omega, by unfold wordStop; omega, ?_⟩
  rw [hbytes, List.getElem?_append_right (by omega), Nat.add_sub_cancel_left, List.getElem?_append_left hn,
    List.getElem?_eq_getElem hn, hb]

end Place

/-! ## Words that are mnemonics -/

/-- The byte of an ASCII letter. -/
def IsLetter (b : UInt8) : Prop := (0x41 ≤ b.toNat ∧ b.toNat ≤ 0x5A) ∨ (0x61 ≤ b.toNat ∧ b.toNat ≤ 0x7A)

open Assembly

/-- What is lowered to a small ASCII letter: an ASCII letter, or one of two characters beyond ASCII. -/
theorem letter_of_lowered {c : Char} (hlow : 0x61 ≤ (lowered c).toNat) (hhigh : (lowered c).toNat ≤ 0x7A) :
    c = Char.ofNat 0x130 ∨ c = Char.ofNat 0x212A
      ∨ (0x41 ≤ c.toNat ∧ c.toNat ≤ 0x5A) ∨ (0x61 ≤ c.toNat ∧ c.toNat ≤ 0x7A) := by
  unfold lowered at hlow hhigh
  split at hlow
  · next hdotted => exact .inl hdotted
  · split at hlow
    · next hkelvin => exact .inr (.inl hkelvin)
    · next hdotted hkelvin =>
      rw [if_neg hdotted, if_neg hkelvin] at hhigh
      by_cases hupper : c.val ≥ 'A'.val ∧ c.val ≤ 'Z'.val
      · exact .inr (.inr (.inl hupper))
      · have hsame : c.toLower = c := dif_neg hupper
        rw [hsame] at hlow hhigh
        exact .inr (.inr (.inr ⟨hlow, hhigh⟩))

theorem lowered_eq_l {c : Char} (h : lowered c = 'l') : c.toNat = 0x4C ∨ c.toNat = 0x6C := by
  unfold lowered at h
  split at h
  · exact absurd h (by decide)
  · split at h
    · exact absurd h (by decide)
    · by_cases hupper : c.val ≥ 'A'.val ∧ c.val ≤ 'Z'.val
      · have hlower : c.toLower.val = c.val + 32 := congrArg Char.val (dif_pos hupper)
        rw [h] at hlower
        have hnat : 0x6C = (c.val.toNat + 32) % 4294967296 := congrArg UInt32.toNat hlower
        have hle : c.val.toNat ≤ 0x5A := hupper.2
        have hvalue : c.val.toNat = 0x4C := by omega
        exact .inl hvalue
      · have hsame : c.toLower = c := dif_neg hupper
        rw [hsame] at h
        exact .inr (congrArg Char.toNat h)

/-- The letters of a mnemonic are small, and one of them is an `l`. -/
theorem mnemonic_letters (op : Opcode) :
    (∀ c ∈ op.mnemonic.toList, 0x61 ≤ c.toNat ∧ c.toNat ≤ 0x7A) ∧ 'l' ∈ op.mnemonic.toList := by
  have hall : op.mnemonic.toList.all (fun c => decide (0x61 ≤ c.toNat ∧ c.toNat ≤ 0x7A)) = true := by
    cases op <;> rfl
  have hany : op.mnemonic.toList.contains 'l' = true := by
    cases op <;> rfl
  constructor
  · intro c hc
    exact of_decide_eq_true (List.all_eq_true.mp hall c hc)
  · exact List.contains_iff_mem.mp hany

theorem loweredText_of_opcode? {token : Text} {op : Opcode} (h : opcode? token = some op) :
    loweredText token = Text.ofString op.mnemonic := by
  simpa using List.find?_some h

/-- The glyphs of a mnemonic in any case are characters that are lowered to its letters. -/
theorem lowered_mem_of_opcode? {token : Text} {op : Opcode} (h : opcode? token = some op) {g : Glyph}
    (hg : g ∈ token) : ∃ c, g = .char c ∧ lowered c ∈ op.mnemonic.toList := by
  have hlowered := loweredText_of_opcode? h
  cases g with
  | char c =>
    have hmem : Glyph.char (lowered c) ∈ loweredText token := List.mem_map.mpr ⟨.char c, hg, rfl⟩
    rw [hlowered, Text.char_mem_ofString] at hmem
    exact ⟨c, rfl, hmem⟩
  | stray b =>
    have hmem : Glyph.stray b ∈ loweredText token := List.mem_map.mpr ⟨.stray b, hg, rfl⟩
    rw [hlowered] at hmem
    simp [Text.ofString] at hmem

theorem bytes_ascii {c : Char} (h : c.toNat < 0x80) : (Glyph.char c).bytes = [UInt8.ofNat c.toNat] :=
  if_pos (Nat.le_of_lt_succ h)

/-- **A word that is a mnemonic, in any case, is spelt with ASCII letters**, and one of them is an `l`. -/
theorem letters_of_opcode? {bytes : List UInt8} {op : Opcode} (hword : ∀ b ∈ bytes, isWordByte b = true)
    (h : opcode? (Text.ofBytes bytes) = some op) :
    (∀ b ∈ bytes, IsLetter b) ∧ ∃ b ∈ bytes, b.toNat = 0x4C ∨ b.toNat = 0x6C := by
  obtain ⟨hsmall, hl⟩ := mnemonic_letters op
  -- a byte of a glyph of the text is a byte of the word
  have hmem : ∀ g ∈ Text.ofBytes bytes, ∀ b ∈ g.bytes, b ∈ bytes := by
    intro g hg b hb
    have hflat : b ∈ (Text.ofBytes bytes).bytes := List.mem_flatMap.mpr ⟨g, hg, hb⟩
    rwa [Text.bytes_ofBytes] at hflat
  have hletter : ∀ c, Glyph.char c ∈ Text.ofBytes bytes → lowered c ∈ op.mnemonic.toList →
      (0x41 ≤ c.toNat ∧ c.toNat ≤ 0x5A) ∨ (0x61 ≤ c.toNat ∧ c.toNat ≤ 0x7A) := by
    intro c hc hlowered
    obtain ⟨hlow, hhigh⟩ := hsmall _ hlowered
    rcases letter_of_lowered hlow hhigh with rfl | rfl | hascii
    · exact absurd (hword 0xB0 (hmem _ hc 0xB0 (by decide))) (by decide)
    · exact absurd (hword 0x84 (hmem _ hc 0x84 (by decide))) (by decide)
    · exact hascii
  constructor
  · intro b hb
    rw [← Text.bytes_ofBytes bytes] at hb
    obtain ⟨g, hg, hbg⟩ := List.mem_flatMap.mp hb
    obtain ⟨c, rfl, hlowered⟩ := lowered_mem_of_opcode? h hg
    have hascii := hletter c hg hlowered
    have hbyte : (UInt8.ofNat c.toNat).toNat = c.toNat := UInt8.toNat_ofNat_of_lt (by simp only [UInt8.size]; omega)
    rw [bytes_ascii (by omega), List.mem_singleton] at hbg
    rw [hbg, IsLetter, hbyte]
    exact hascii
  · have hlowered : Glyph.char 'l' ∈ loweredText (Text.ofBytes bytes) := by
      rw [loweredText_of_opcode? h, Text.char_mem_ofString]
      exact hl
    obtain ⟨g, hg, hgl⟩ := List.mem_map.mp hlowered
    cases g with
    | char c =>
      have hc := lowered_eq_l (Glyph.char.inj hgl)
      have hbyte : (UInt8.ofNat c.toNat).toNat = c.toNat := UInt8.toNat_ofNat_of_lt (by simp only [UInt8.size]; omega)
      refine ⟨UInt8.ofNat c.toNat, hmem _ hg _ ?_, by rw [hbyte]; exact hc⟩
      rw [bytes_ascii (by omega)]
      exact List.mem_singleton_self _
    | stray b => cases hgl

end StripSequencer.LanguageServer
