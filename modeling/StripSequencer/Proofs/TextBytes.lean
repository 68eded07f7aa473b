import StripSequencer.Text.Blank

/-!
# `StripSequencer.Proofs.TextBytes` — texts and the bytes that spell them

Reading bytes as text loses none of them, whether they are valid UTF-8 or not, and characters are read back from
their bytes, whatever follows. Bytes below `0x80` only stand for themselves: every byte of a longer sequence is
above them.

## Contents
- `Utf8.isTail_iff`, `Utf8.isSecond_iff`: the bytes that continue a sequence, as ranges.
- `Utf8.bytes_read`, `Text.bytes_ofBytes`: the bytes of a text that was read from bytes.
- `Text.ofBytes_char`, `Text.ofBytes_append_chars`: the text of bytes that spell characters.
- `Text.chars`, `Text.IsUnicode`, `Text.IsUnicode.toString?_bytes`: texts without stray bytes are read back as strings.
- `eq_of_mem_bytes_char`, `exists_last_byte`: single bytes of a character.
-/

namespace StripSequencer

/-! ## Sequences as numbers -/

/-- The number of a character that was made from a valid number. -/
theorem toNat_ofNat_of_valid {n : Nat} (h : n.isValidChar) : (Char.ofNat n).val.toNat = n := by
  rw [Char.ofNat, dif_pos h]
  rfl

namespace Utf8

variable {b c d e : UInt8}

/-- A range of bytes as a range of numbers. -/
theorem range_iff {low high : UInt8} :
    (decide (low ≤ c) && decide (c ≤ high)) = true ↔ low.toNat ≤ c.toNat ∧ c.toNat ≤ high.toNat := by
  rw [Bool.and_eq_true, decide_eq_true_eq, decide_eq_true_eq, UInt8.le_iff_toNat_le, UInt8.le_iff_toNat_le]

/-- The first bytes of the four lengths of sequences. -/
structure FirstRanges (b : UInt8) : Prop where
  one : b < 0x80 ↔ b.toNat < 0x80
  two : (decide ((0xC2 : UInt8) ≤ b) && decide (b ≤ 0xDF)) = true ↔ 0xC2 ≤ b.toNat ∧ b.toNat ≤ 0xDF
  three : (decide ((0xE0 : UInt8) ≤ b) && decide (b ≤ 0xEF)) = true ↔ 0xE0 ≤ b.toNat ∧ b.toNat ≤ 0xEF
  four : (decide ((0xF0 : UInt8) ≤ b) && decide (b ≤ 0xF4)) = true ↔ 0xF0 ≤ b.toNat ∧ b.toNat ≤ 0xF4

theorem firstRanges (b : UInt8) : FirstRanges b :=
  ⟨UInt8.lt_iff_toNat_lt, range_iff, range_iff, range_iff⟩

theorem isTail_iff : isTail c = true ↔ 0x80 ≤ c.toNat ∧ c.toNat ≤ 0xBF := range_iff

/-- The second byte is one that continues a sequence, and four first bytes narrow its range. -/
theorem isSecond_iff : isSecond b c = true ↔
    (0x80 ≤ c.toNat ∧ c.toNat ≤ 0xBF)
      ∧ (b.toNat = 0xE0 → 0xA0 ≤ c.toNat) ∧ (b.toNat = 0xED → c.toNat ≤ 0x9F)
      ∧ (b.toNat = 0xF0 → 0x90 ≤ c.toNat) ∧ (b.toNat = 0xF4 → c.toNat ≤ 0x8F) := by
  have hfirst : ∀ first : UInt8, b = first ↔ b.toNat = first.toNat := by
    intro first
    exact UInt8.toNat_inj.symm
  unfold isSecond
  simp only [hfirst, UInt8.reduceToNat]
  -- each of the four first bytes has a range of its own, and all others share one
  split
  · simp only [range_iff, UInt8.reduceToNat]
    omega
  split
  · simp only [range_iff, UInt8.reduceToNat]
    omega
  split
  · simp only [range_iff, UInt8.reduceToNat]
    omega
  split
  · simp only [range_iff, UInt8.reduceToNat]
    omega
  · rw [isTail_iff]
    omega

/-! ## The bytes of what was read -/

theorem encode_value1 (hb : b < 0x80) : String.utf8EncodeChar (Char.ofNat b.toNat) = [b] := by
  have hlt : b.toNat < 0x80 := UInt8.lt_iff_toNat_lt.mp hb
  have hvalid : b.toNat.isValidChar := .inl (by omega)
  unfold String.utf8EncodeChar
  simp only [toNat_ofNat_of_valid hvalid]
  rw [if_pos (by omega), UInt8.ofNat_toNat]

theorem encode_value2 (hlow : 0xC2 ≤ b.toNat) (hhigh : b.toNat ≤ 0xDF) (hc : isTail c = true) :
    String.utf8EncodeChar (Char.ofNat (value2 b c)) = [b, c] := by
  rw [isTail_iff] at hc
  have hvalue : value2 b c = (b.toNat - 0xC0) * 64 + (c.toNat - 0x80) := rfl
  have hvalid : (value2 b c).isValidChar := .inl (by omega)
  unfold String.utf8EncodeChar
  simp only [toNat_ofNat_of_valid hvalid]
  rw [if_neg (by omega), if_pos (by omega)]
  have hfirst : value2 b c / 64 % 32 + 0xC0 = b.toNat := by omega
  have hsecond : value2 b c % 64 + 0x80 = c.toNat := by omega
  rw [hfirst, hsecond, UInt8.ofNat_toNat, UInt8.ofNat_toNat]

theorem encode_value3 (hlow : 0xE0 ≤ b.toNat) (hhigh : b.toNat ≤ 0xEF) (hc : isSecond b c = true)
    (hd : isTail d = true) : String.utf8EncodeChar (Char.ofNat (value3 b c d)) = [b, c, d] := by
  rw [isSecond_iff] at hc
  rw [isTail_iff] at hd
  have hvalue : value3 b c d = (b.toNat - 0xE0) * 4096 + (c.toNat - 0x80) * 64 + (d.toNat - 0x80) := rfl
  have hvalid : (value3 b c d).isValidChar := by
    unfold Nat.isValidChar
    omega
  unfold String.utf8EncodeChar
  simp only [toNat_ofNat_of_valid hvalid]
  rw [if_neg (by omega), if_neg (by omega), if_pos (by omega)]
  have hfirst : value3 b c d / 4096 % 16 + 0xE0 = b.toNat := by omega
  have hsecond : value3 b c d / 64 % 64 + 0x80 = c.toNat := by omega
  have hthird : value3 b c d % 64 + 0x80 = d.toNat := by omega
  rw [hfirst, hsecond, hthird, UInt8.ofNat_toNat, UInt8.ofNat_toNat, UInt8.ofNat_toNat]

theorem encode_value4 (hlow : 0xF0 ≤ b.toNat) (hhigh : b.toNat ≤ 0xF4) (hc : isSecond b c = true)
    (hd : isTail d = true) (he : isTail e = true) :
    String.utf8EncodeChar (Char.ofNat (value4 b c d e)) = [b, c, d, e] := by
  rw [isSecond_iff] at hc
  rw [isTail_iff] at hd he
  have hvalue : value4 b c d e = (b.toNat - 0xF0) * 262144 + (c.toNat - 0x80) * 4096 + (d.toNat - 0x80) * 64
      + (e.toNat - 0x80) := rfl
  have hvalid : (value4 b c d e).isValidChar := by
    unfold Nat.isValidChar
    omega
  unfold String.utf8EncodeChar
  simp only [toNat_ofNat_of_valid hvalid]
  rw [if_neg (by omega), if_neg (by omega), if_neg (by omega)]
  have hfirst : value4 b c d e / 262144 % 8 + 0xF0 = b.toNat := by omega
  have hsecond : value4 b c d e / 4096 % 64 + 0x80 = c.toNat := by omega
  have hthird : value4 b c d e / 64 % 64 + 0x80 = d.toNat := by omega
  have hfourth : value4 b c d e % 64 + 0x80 = e.toNat := by omega
  rw [hfirst, hsecond, hthird, hfourth, UInt8.ofNat_toNat, UInt8.ofNat_toNat, UInt8.ofNat_toNat,
    UInt8.ofNat_toNat]

/-- **Reading loses no byte**: the bytes of the glyph, and then what is left, are what was there. -/
theorem bytes_read (b : UInt8) (rest : List UInt8) :
    (read b rest).1.bytes ++ (read b rest).2 = b :: rest := by
  have hfirst := firstRanges b
  unfold read
  split
  case isTrue hone =>
    show String.utf8EncodeChar (Char.ofNat b.toNat) ++ rest = b :: rest
    rw [encode_value1 hone]
    rfl
  split
  case isTrue htwo =>
    obtain ⟨hlow, hhigh⟩ := hfirst.two.mp htwo
    split
    next c rest =>
      split
      case isTrue hc =>
        show String.utf8EncodeChar (Char.ofNat (value2 b c)) ++ rest = b :: c :: rest
        rw [encode_value2 hlow hhigh hc]
        rfl
      · rfl
    · rfl
  split
  case isTrue hthree =>
    obtain ⟨hlow, hhigh⟩ := hfirst.three.mp hthree
    split
    next c d rest =>
      split
      case isTrue hvalid =>
        rw [Bool.and_eq_true] at hvalid
        show String.utf8EncodeChar (Char.ofNat (value3 b c d)) ++ rest = b :: c :: d :: rest
        rw [encode_value3 hlow hhigh hvalid.1 hvalid.2]
        rfl
      · rfl
    · rfl
  split
  case isTrue hfour =>
    obtain ⟨hlow, hhigh⟩ := hfirst.four.mp hfour
    split
    next c d e rest =>
      split
      case isTrue hvalid =>
        rw [Bool.and_eq_true, Bool.and_eq_true] at hvalid
        show String.utf8EncodeChar (Char.ofNat (value4 b c d e)) ++ rest = b :: c :: d :: e :: rest
        rw [encode_value4 hlow hhigh hvalid.1.1 hvalid.1.2 hvalid.2]
        rfl
      · rfl
    · rfl
  · rfl

end Utf8

namespace Text

@[simp] theorem bytes_nil : bytes [] = [] := rfl

@[simp] theorem bytes_cons (g : Glyph) (t : Text) : bytes (g :: t) = g.bytes ++ bytes t := rfl

@[simp] theorem bytes_append (t u : Text) : bytes (t ++ u) = bytes t ++ bytes u := by
  simp [bytes]

/-- **The text of any bytes has these bytes.** -/
@[simp] theorem bytes_ofBytes (bytes : List UInt8) : (ofBytes bytes).bytes = bytes := by
  fun_induction ofBytes bytes with
  | case1 => rfl
  | case2 b rest ih =>
    rw [bytes_cons, ih]
    exact Utf8.bytes_read b rest

end Text

/-! ## Characters from their bytes -/

namespace Utf8

variable {b c d e : UInt8}

theorem read_two (hlow : 0xC2 ≤ b.toNat) (hhigh : b.toNat ≤ 0xDF) (hc : isTail c = true) (rest : List UInt8) :
    read b (c :: rest) = (.char (Char.ofNat (value2 b c)), rest) := by
  have hfirst := firstRanges b
  unfold read
  simp only [hfirst.one, hfirst.two]
  rw [if_neg (by omega), if_pos ⟨hlow, hhigh⟩, if_pos hc]

theorem read_three (hlow : 0xE0 ≤ b.toNat) (hhigh : b.toNat ≤ 0xEF) (hc : isSecond b c = true)
    (hd : isTail d = true) (rest : List UInt8) :
    read b (c :: d :: rest) = (.char (Char.ofNat (value3 b c d)), rest) := by
  have hfirst := firstRanges b
  unfold read
  simp only [hfirst.one, hfirst.two, hfirst.three]
  rw [if_neg (by omega), if_neg (by omega), if_pos ⟨hlow, hhigh⟩, hc, hd]
  rfl

theorem read_four (hlow : 0xF0 ≤ b.toNat) (hhigh : b.toNat ≤ 0xF4) (hc : isSecond b c = true)
    (hd : isTail d = true) (he : isTail e = true) (rest : List UInt8) :
    read b (c :: d :: e :: rest) = (.char (Char.ofNat (value4 b c d e)), rest) := by
  have hfirst := firstRanges b
  unfold read
  simp only [hfirst.one, hfirst.two, hfirst.three, hfirst.four]
  rw [if_neg (by omega), if_neg (by omega), if_neg (by omega), if_pos ⟨hlow, hhigh⟩, hc, hd, he]
  rfl

end Utf8

namespace Text

theorem ofBytes_of_read {b : UInt8} {bytes rest : List UInt8} {g : Glyph} (h : Utf8.read b bytes = (g, rest)) :
    ofBytes (b :: bytes) = g :: ofBytes rest := by
  rw [ofBytes, h]

section Lengths

variable {b c d e : UInt8} {v : Nat} (rest : List UInt8)

theorem ofBytes_one (hv : v ≤ 0x7F) (hb : b.toNat = v) :
    ofBytes (b :: rest) = .char (Char.ofNat v) :: ofBytes rest := by
  subst hb
  have hone : b < 0x80 := (Utf8.firstRanges b).one.mpr (by omega)
  exact ofBytes_of_read (if_pos hone)

theorem ofBytes_two (hlow : 0x80 ≤ v) (hhigh : v ≤ 0x7FF) (hb : b.toNat = v / 64 % 32 + 0xC0)
    (hc : c.toNat = v % 64 + 0x80) :
    ofBytes (b :: c :: rest) = .char (Char.ofNat v) :: ofBytes rest := by
  have htail : Utf8.isTail c = true := Utf8.isTail_iff.mpr (by omega)
  have hvalue : Utf8.value2 b c = v := by
    unfold Utf8.value2
    omega
  rw [ofBytes_of_read (Utf8.read_two (by omega) (by omega) htail rest), hvalue]

theorem ofBytes_three (hlow : 0x800 ≤ v) (hhigh : v ≤ 0xFFFF) (hvalid : v < 0xD800 ∨ 0xDFFF < v)
    (hb : b.toNat = v / 4096 % 16 + 0xE0) (hc : c.toNat = v / 64 % 64 + 0x80) (hd : d.toNat = v % 64 + 0x80) :
    ofBytes (b :: c :: d :: rest) = .char (Char.ofNat v) :: ofBytes rest := by
  have hsecond : Utf8.isSecond b c = true := Utf8.isSecond_iff.mpr (by omega)
  have htail : Utf8.isTail d = true := Utf8.isTail_iff.mpr (by omega)
  have hvalue : Utf8.value3 b c d = v := by
    unfold Utf8.value3
    omega
  rw [ofBytes_of_read (Utf8.read_three (by omega) (by omega) hsecond htail rest), hvalue]

theorem ofBytes_four (hlow : 0x10000 ≤ v) (hhigh : v < 0x110000) (hb : b.toNat = v / 262144 % 8 + 0xF0)
    (hc : c.toNat = v / 4096 % 64 + 0x80) (hd : d.toNat = v / 64 % 64 + 0x80) (he : e.toNat = v % 64 + 0x80) :
    ofBytes (b :: c :: d :: e :: rest) = .char (Char.ofNat v) :: ofBytes rest := by
  have hsecond : Utf8.isSecond b c = true := Utf8.isSecond_iff.mpr (by omega)
  have hthird : Utf8.isTail d = true := Utf8.isTail_iff.mpr (by omega)
  have hfourth : Utf8.isTail e = true := Utf8.isTail_iff.mpr (by omega)
  have hvalue : Utf8.value4 b c d e = v := by
    unfold Utf8.value4
    omega
  rw [ofBytes_of_read (Utf8.read_four (by omega) (by omega) hsecond hthird hfourth rest), hvalue]

end Lengths

/-- **A character is read from its bytes**, whatever follows. -/
theorem ofBytes_char (c : Char) (rest : List UInt8) :
    ofBytes (String.utf8EncodeChar c ++ rest) = .char c :: ofBytes rest := by
  have hvalid : c.val.toNat < 0xD800 ∨ 0xDFFF < c.val.toNat ∧ c.val.toNat < 0x110000 := c.valid
  have hglyph : Glyph.char c = .char (Char.ofNat c.val.toNat) := congrArg Glyph.char (Char.ofNat_toNat c).symm
  have hbyte : ∀ n < 256, (UInt8.ofNat n).toNat = n := by
    intro n hn
    exact UInt8.toNat_ofNat_of_lt hn
  rw [hglyph]
  unfold String.utf8EncodeChar
  generalize c.val.toNat = v at hvalid
  dsimp only
  split
  · next hone =>
    apply ofBytes_one rest hone
    exact hbyte v (by omega)
  split
  · next hone htwo =>
    apply ofBytes_two rest (by omega) htwo <;> exact hbyte _ (by omega)
  split
  · next hone htwo hthree =>
    apply ofBytes_three rest (by omega) hthree (by omega) <;> exact hbyte _ (by omega)
  · apply ofBytes_four rest (by omega) (by omega) <;> exact hbyte _ (by omega)

/-- The text holds no stray byte. -/
def IsUnicode (t : Text) : Prop := ∀ g ∈ t, ∃ c, g = .char c

/-- Characters at the front of bytes are read one by one. -/
theorem ofBytes_append_chars {t : Text} (h : t.IsUnicode) (rest : List UInt8) :
    ofBytes (t.bytes ++ rest) = t ++ ofBytes rest := by
  induction t with
  | nil => rfl
  | cons g t ih =>
    obtain ⟨c, rfl⟩ := h g List.mem_cons_self
    have hrest := ih fun g' hg' => h g' (List.mem_cons_of_mem _ hg')
    show ofBytes (String.utf8EncodeChar c ++ bytes t ++ rest) = _
    rw [List.append_assoc, ofBytes_char, hrest]
    rfl

theorem ofBytes_bytes_chars {t : Text} (h : t.IsUnicode) : ofBytes t.bytes = t := by
  have hread := ofBytes_append_chars h []
  rw [List.append_nil] at hread
  rw [hread, ofBytes, List.append_nil]

/-! ## Characters -/

/-- The characters of a text, without its stray bytes. -/
def chars (t : Text) : List Char := t.filterMap Glyph.char?

@[simp] theorem chars_nil : chars [] = [] := rfl

@[simp] theorem chars_char_cons (c : Char) (t : Text) : chars (.char c :: t) = c :: t.chars := rfl

@[simp] theorem chars_stray_cons (b : UInt8) (t : Text) : chars (.stray b :: t) = t.chars := rfl

@[simp] theorem chars_append (t u : Text) : chars (t ++ u) = t.chars ++ u.chars := List.filterMap_append

theorem chars_flatMap {α : Type} (xs : List α) (f : α → Text) :
    chars (xs.flatMap f) = xs.flatMap fun x => (f x).chars := by
  induction xs with
  | nil => rfl
  | cons x xs ih => rw [List.flatMap_cons, chars_append, ih, List.flatMap_cons]

@[simp] theorem chars_map (cs : List Char) : chars (cs.map .char) = cs := by
  induction cs with
  | nil => rfl
  | cons c cs ih => rw [List.map_cons, chars_char_cons, ih]

@[simp] theorem chars_ofString (s : String) : (ofString s).chars = s.toList := chars_map s.toList

theorem isUnicode_ofString (s : String) : (ofString s).IsUnicode := by
  intro g hg
  obtain ⟨c, -, rfl⟩ := List.mem_map.mp hg
  exact ⟨c, rfl⟩

theorem isUnicode_char (c : Char) : IsUnicode [.char c] := fun _ hg => ⟨c, List.mem_singleton.mp hg⟩

theorem IsUnicode.flatMap {α : Type} {xs : List α} {f : α → Text} (h : ∀ x ∈ xs, (f x).IsUnicode) :
    IsUnicode (xs.flatMap f) := by
  intro g hg
  obtain ⟨x, hx, hg⟩ := List.mem_flatMap.mp hg
  exact h x hx g hg

theorem IsUnicode.append {t u : Text} (ht : t.IsUnicode) (hu : u.IsUnicode) : (t ++ u).IsUnicode :=
  List.forall_mem_append.mpr ⟨ht, hu⟩

/-- A text without stray bytes is that of its characters. -/
theorem IsUnicode.ofString_chars {t : Text} (h : t.IsUnicode) : ofString (String.ofList t.chars) = t := by
  unfold ofString
  rw [String.toList_ofList]
  induction t with
  | nil => rfl
  | cons g t ih =>
    obtain ⟨⟨c, rfl⟩, ht⟩ := List.forall_mem_cons.mp h
    rw [chars_char_cons, List.map_cons, ih ht]

/-! ## Strings -/

theorem toString?_ofString (s : String) : (ofString s).toString? = some s := by
  have hchars : ∀ cs : List Char, (cs.map Glyph.char).mapM Glyph.char? = some cs := by
    intro cs
    induction cs with
    | nil => rfl
    | cons c cs ih =>
      rw [List.map_cons, List.mapM_cons, ih]
      rfl
  unfold toString? ofString
  rw [hchars, Option.map_some, String.ofList_toList]

/-- A text that shows no replacement character has no stray byte. -/
theorem ofString_display {t : Text} (h : Char.ofNat 0xFFFD ∉ t.display.toList) : ofString t.display = t := by
  unfold display at h ⊢
  unfold ofString
  rw [String.toList_ofList] at h ⊢
  rw [List.map_map]
  refine (List.map_congr_left ?_).trans (List.map_id t)
  intro g hg
  cases g with
  | char c => rfl
  | stray b => exact absurd (List.mem_map_of_mem hg) h

/-- **A text without stray bytes is read back as a string.** -/
theorem IsUnicode.toString?_bytes {t : Text} (h : t.IsUnicode) :
    (ofBytes t.bytes).toString? = some (String.ofList t.chars) := by
  rw [ofBytes_bytes_chars h, ← toString?_ofString, h.ofString_chars]

end Text

/-! ## Single bytes -/

/-- A byte below `0x80` stands for itself. -/
theorem eq_of_mem_bytes_char {c : Char} {b : UInt8} (h : b ∈ (Glyph.char c).bytes) (hb : b.toNat < 0x80) :
    c.toNat = b.toNat := by
  have hhigh : ∀ n, 0x80 ≤ n → n < 256 → b ≠ UInt8.ofNat n := by
    intro n hlow hlt heq
    have hbyte : (UInt8.ofNat n).toNat = n := UInt8.toNat_ofNat_of_lt hlt
    rw [heq, hbyte] at hb
    omega
  have hmem : b ∈ String.utf8EncodeChar c := h
  unfold String.utf8EncodeChar at hmem
  dsimp only at hmem
  split at hmem
  · next hone =>
    have hbyte : (UInt8.ofNat c.val.toNat).toNat = c.val.toNat :=
      UInt8.toNat_ofNat_of_lt (Nat.lt_of_le_of_lt hone (by decide))
    rw [List.mem_singleton.mp hmem, hbyte]
    rfl
  -- all bytes of a longer sequence are above the limit
  split at hmem
  · simp only [List.mem_cons, List.not_mem_nil, or_false] at hmem
    rcases hmem with heq | heq <;> exact absurd heq (hhigh _ (by omega) (by omega))
  split at hmem
  · simp only [List.mem_cons, List.not_mem_nil, or_false] at hmem
    rcases hmem with heq | heq | heq <;> exact absurd heq (hhigh _ (by omega) (by omega))
  · simp only [List.mem_cons, List.not_mem_nil, or_false] at hmem
    rcases hmem with heq | heq | heq | heq <;> exact absurd heq (hhigh _ (by omega) (by omega))

/-- The last byte of a character holds its lowest bits. -/
theorem exists_last_byte (c : Char) :
    ∃ front b, (Glyph.char c).bytes = front ++ [b]
      ∧ (c.toNat < 0x80 ∧ b.toNat = c.toNat ∨ 0x80 ≤ c.toNat ∧ b.toNat = c.toNat % 64 + 0x80) := by
  have hbyte : ∀ n < 256, (UInt8.ofNat n).toNat = n := by
    intro n hn
    exact UInt8.toNat_ofNat_of_lt hn
  have hlow := hbyte (c.toNat % 64 + 0x80) (by omega)
  show ∃ front b, String.utf8EncodeChar c = front ++ [b] ∧ _
  unfold String.utf8EncodeChar
  dsimp only
  split
  · next hone => exact ⟨[], _, rfl, .inl ⟨Nat.lt_succ_of_le hone, hbyte _ (by omega)⟩⟩
  · next hone =>
    have hmore : 0x80 ≤ c.toNat := Nat.lt_of_not_le hone
    split
    · exact ⟨[_], _, rfl, .inr ⟨hmore, hlow⟩⟩
    split
    · exact ⟨[_, _], _, rfl, .inr ⟨hmore, hlow⟩⟩
    · exact ⟨[_, _, _], _, rfl, .inr ⟨hmore, hlow⟩⟩

theorem Glyph.bytes_ne_nil (g : Glyph) : g.bytes ≠ [] := by
  cases g with
  | char c =>
    obtain ⟨front, b, hbytes, -⟩ := exists_last_byte c
    rw [hbytes]
    exact List.append_ne_nil_of_right_ne_nil front (List.cons_ne_nil b [])
  | stray b => exact List.cons_ne_nil b []

theorem Text.eq_nil_of_bytes {t : Text} (h : t.bytes = []) : t = [] := by
  cases t with
  | nil => rfl
  | cons g t =>
    rw [Text.bytes_cons] at h
    exact absurd (List.append_eq_nil_iff.mp h).1 g.bytes_ne_nil

theorem isBlankChar_iff {c : Char} : isBlankChar c = true ↔
    (0x09 ≤ c.toNat ∧ c.toNat ≤ 0x0D) ∨ c.toNat = 0x20 ∨ c.toNat = 0x85 ∨ c.toNat = 0xA0 ∨ c.toNat = 0x1680
      ∨ (0x2000 ≤ c.toNat ∧ c.toNat ≤ 0x200A) ∨ c.toNat = 0x2028 ∨ c.toNat = 0x2029 ∨ c.toNat = 0x202F
      ∨ c.toNat = 0x205F ∨ c.toNat = 0x3000 := by
  simp [isBlankChar, or_assoc]

/-- Only characters are blank. -/
theorem Glyph.exists_char_of_isBlank {g : Glyph} (h : g.isBlank = true) : ∃ c, g = .char c ∧ isBlankChar c = true := by
  cases g with
  | char c => exact ⟨c, rfl, h⟩
  | stray b => cases h

end StripSequencer
