import StripSequencer.Assembly
import StripSequencer.Proofs.Layout
import StripSequencer.Proofs.Tokens

/-!
# `StripSequencer.Proofs.LineByLine` — program text is assembled line by line

Two program texts with a line feed between them assemble to the code of the first and then the code of
the second, and fail as the first of them to fail, on the line where that failure now stands. The texts
are given as bytes, which need not be valid UTF-8. A line feed is one byte, which is part of no longer
sequence, so it parts the bytes of a text as it parts its glyphs.

## Contents
- `Utf8.read_append`, `Text.ofBytes_append`: an ASCII byte parts the text before it from that after it.
- `Text.line_induction`: bytes are one line, or a line, a line feed and further bytes.
- `assembleLines_append`, `assemble_append`: how texts that follow each other are assembled.
- `assembleLine_return`, `assemble_crlf`: carriage returns at the ends of lines do not matter.
- `assemble_line_by_line`: the main result.
-/

namespace StripSequencer

/-! ## ASCII bytes in UTF-8 -/

namespace Utf8

variable {c : UInt8}

theorem isTail_of_ascii (h : c < 0x80) : isTail c = false := by
  have hle : ¬ (0x80 : UInt8) ≤ c := UInt8.not_le.mpr h
  simp [isTail, hle]

theorem isSecond_of_ascii (h : c < 0x80) (b : UInt8) : isSecond b c = false := by
  have hbelow : ∀ low : UInt8, 0x80 ≤ low → ¬ low ≤ c := by
    intro low hlow
    exact UInt8.not_le.mpr (UInt8.lt_of_lt_of_le h hlow)
  simp [isSecond, isTail_of_ascii h, hbelow 0xA0 (by decide), hbelow 0x80 (by decide),
    hbelow 0x90 (by decide)]

/-- **No sequence reaches across an ASCII byte**: what stands from it on has no part in the glyph. -/
theorem read_append (h : c < 0x80) (b : UInt8) (bytes more : List UInt8) :
    read b (bytes ++ c :: more) = ((read b bytes).1, (read b bytes).2 ++ c :: more) := by
  have htail := isTail_of_ascii h
  have hsecond := isSecond_of_ascii h b
  unfold read
  by_cases hone : b < 0x80
  · simp [hone]
  rw [if_neg hone, if_neg hone]
  -- In each length, `c` may be any of the bytes that would have to continue the sequence.
  by_cases htwo : (0xC2 ≤ b && b ≤ 0xDF) = true
  · rw [if_pos htwo, if_pos htwo]
    match bytes with
    | [] => simp [htail]
    | d :: bytes => cases hvalid : isTail d <;> simp [hvalid]
  rw [if_neg htwo, if_neg htwo]
  by_cases hthree : (0xE0 ≤ b && b ≤ 0xEF) = true
  · rw [if_pos hthree, if_pos hthree]
    match bytes with
    | [] => cases more <;> simp [hsecond]
    | [d] => simp [htail]
    | d :: e :: bytes => cases hvalid : isSecond b d && isTail e <;> simp [hvalid]
  rw [if_neg hthree, if_neg hthree]
  by_cases hfour : (0xF0 ≤ b && b ≤ 0xF4) = true
  · rw [if_pos hfour, if_pos hfour]
    match bytes with
    | [] =>
      match more with
      | [] | [_] | _ :: _ :: _ => simp [hsecond]
    | [d] => cases more <;> simp [htail]
    | [d, e] => simp [htail]
    | d :: e :: f :: bytes =>
      cases hvalid : isSecond b d && isTail e && isTail f <;> simp [hvalid]
  · rw [if_neg hfour, if_neg hfour]

variable {b d e : UInt8}

theorem le_value2 (hb : 0xC2 ≤ b) : 0x80 ≤ value2 b c := by
  have hfirst : 0xC2 ≤ b.toNat := UInt8.le_iff_toNat_le.mp hb
  unfold value2
  omega

-- The least first byte adds nothing to the value; the second bytes allowed after it make up for that.
theorem le_value3 (hb : 0xE0 ≤ b) (hc : isSecond b c = true) : 0x80 ≤ value3 b c d := by
  have hfirst : 0xE0 ≤ b.toNat := UInt8.le_iff_toNat_le.mp hb
  unfold value3
  by_cases hleast : b = 0xE0
  · subst hleast
    have hrange : (0xA0 ≤ c && c ≤ 0xBF) = true := hc
    rw [Bool.and_eq_true, decide_eq_true_eq] at hrange
    have hsecond : 0xA0 ≤ c.toNat := UInt8.le_iff_toNat_le.mp hrange.1
    omega
  · have hne : b.toNat ≠ 0xE0 := fun h => hleast (UInt8.toNat_inj.mp h)
    omega

theorem le_value4 (hb : 0xF0 ≤ b) (hc : isSecond b c = true) : 0x80 ≤ value4 b c d e := by
  have hfirst : 0xF0 ≤ b.toNat := UInt8.le_iff_toNat_le.mp hb
  unfold value4
  by_cases hleast : b = 0xF0
  · subst hleast
    have hrange : (0x90 ≤ c && c ≤ 0xBF) = true := hc
    rw [Bool.and_eq_true, decide_eq_true_eq] at hrange
    have hsecond : 0x90 ≤ c.toNat := UInt8.le_iff_toNat_le.mp hrange.1
    omega
  · have hne : b.toNat ≠ 0xF0 := fun h => hleast (UInt8.toNat_inj.mp h)
    omega

/-- What reading can make of the byte `b` and the bytes after it: an ASCII character, a character
beyond ASCII that uses up some of them, or a stray byte. -/
inductive Reads (b : UInt8) : List UInt8 → Glyph × List UInt8 → Prop where
  | ascii {rest : List UInt8} (h : b < 0x80) : Reads b rest (.char (Char.ofNat b.toNat), rest)
  | long {n : Nat} {rest : List UInt8} (tail : List UInt8) (h : 0x80 ≤ n) :
    Reads b (tail ++ rest) (.char (Char.ofNat n), rest)
  | stray {rest : List UInt8} : Reads b rest (.stray b, rest)

theorem reads_read (b : UInt8) (rest : List UInt8) : Reads b rest (read b rest) := by
  unfold read
  split
  case isTrue hone => exact .ascii hone
  split
  case isTrue htwo =>
    rw [Bool.and_eq_true, decide_eq_true_eq] at htwo
    split
    next c rest =>
      split
      · exact .long [c] (le_value2 htwo.1)
      · exact .stray
    · exact .stray
  split
  case isTrue hthree =>
    rw [Bool.and_eq_true, decide_eq_true_eq] at hthree
    split
    next c d rest =>
      split
      case isTrue hvalid =>
        rw [Bool.and_eq_true] at hvalid
        exact .long [c, d] (le_value3 hthree.1 hvalid.1)
      · exact .stray
    · exact .stray
  split
  case isTrue hfour =>
    rw [Bool.and_eq_true, decide_eq_true_eq] at hfour
    split
    next c d e rest =>
      split
      case isTrue hvalid =>
        rw [Bool.and_eq_true, Bool.and_eq_true] at hvalid
        exact .long [c, d, e] (le_value4 hfour.1 hvalid.1.1)
      · exact .stray
    · exact .stray
  · exact .stray

/-- What is left after a glyph is the end of what was there. -/
theorem Reads.suffix {rest : List UInt8} {result : Glyph × List UInt8} (h : Reads b rest result) :
    result.2 <:+ rest := by
  cases h with
  | ascii => exact List.suffix_rfl
  | long tail => exact List.suffix_append tail _
  | stray => exact List.suffix_rfl

/-- Only the byte of a line feed is read as a line feed. -/
theorem Reads.feed {rest : List UInt8} {result : Glyph × List UInt8} (h : Reads b rest result)
    (hfeed : result.1 = .char '\n') : b = 0x0A := by
  -- A number that is no scalar value stands for the null character, which is no line feed either.
  have hten : ∀ n : Nat, Char.ofNat n = '\n' → n = 10 := by
    intro n hn
    by_cases hvalid : n.isValidChar
    · rw [Char.ofNat, dif_pos hvalid] at hn
      exact congrArg Char.toNat hn
    · rw [Char.ofNat, dif_neg hvalid] at hn
      exact absurd hn (by decide)
  cases h with
  | ascii =>
    have hb : b.toNat = 10 := hten _ (Glyph.char.inj hfeed)
    exact UInt8.toNat_inj.mp hb
  | @long n _ tail hn =>
    have hvalue : n = 10 := hten _ (Glyph.char.inj hfeed)
    omega
  | stray => cases hfeed

end Utf8

/-! ## Lines of bytes -/

namespace Text

theorem ofBytes_ascii {c : UInt8} (h : c < 0x80) (more : List UInt8) :
    ofBytes (c :: more) = .char (Char.ofNat c.toNat) :: ofBytes more := by
  have hread : Utf8.read c more = (.char (Char.ofNat c.toNat), more) := if_pos h
  rw [ofBytes, hread]

/-- **An ASCII byte parts the text before it from the text after it.** -/
theorem ofBytes_append {c : UInt8} (h : c < 0x80) (bytes more : List UInt8) :
    ofBytes (bytes ++ c :: more) = ofBytes bytes ++ .char (Char.ofNat c.toNat) :: ofBytes more := by
  fun_induction ofBytes bytes with
  | case1 => exact ofBytes_ascii h more
  | case2 b rest ih =>
    rw [List.cons_append, ofBytes, Utf8.read_append h, ih]
    rfl

theorem ofBytes_append_feed (bytes more : List UInt8) :
    ofBytes (bytes ++ 0x0A :: more) = ofBytes bytes ++ .char '\n' :: ofBytes more :=
  ofBytes_append (by decide) bytes more

/-- A text has no line feed that its bytes have not. -/
theorem feed_not_mem_ofBytes {bytes : List UInt8} (h : 0x0A ∉ bytes) :
    Glyph.char '\n' ∉ ofBytes bytes := by
  fun_induction ofBytes bytes with
  | case1 => exact List.not_mem_nil
  | case2 b rest ih =>
    have hread := Utf8.reads_read b rest
    rw [List.mem_cons, not_or] at h ⊢
    constructor
    · intro hfeed
      exact h.1 (hread.feed hfeed.symm).symm
    · apply ih
      intro hmem
      exact h.2 (hread.suffix.mem hmem)

/-- Bytes are one line, or a line, a line feed and further bytes. -/
theorem line_induction {P : List UInt8 → Prop} (single : ∀ line, 0x0A ∉ line → P line)
    (feed : ∀ line rest, 0x0A ∉ line → P rest → P (line ++ 0x0A :: rest)) (bytes : List UInt8) :
    P bytes := by
  by_cases h : 0x0A ∈ bytes
  · obtain ⟨line, rest, hbytes, hline⟩ := List.eq_append_cons_of_mem h
    subst hbytes
    exact feed line rest hline (line_induction single feed rest)
  · exact single bytes h
termination_by bytes.length
decreasing_by
  rw [hbytes, List.length_append, List.length_cons]
  omega

/-- The lines of two texts with a line feed between them. -/
theorem lines_append (t u : Text) : lines (t ++ .char '\n' :: u) = lines t ++ lines u :=
  segments_append t (decide_eq_true rfl) u

theorem lines_of_not_mem {t : Text} (h : Glyph.char '\n' ∉ t) : lines t = [t] := by
  apply segments_of_forall_not
  intro g hg
  apply decide_eq_false
  intro hfeed
  exact h (hfeed ▸ hg)

theorem lines_ofBytes {line : List UInt8} (h : 0x0A ∉ line) : lines (ofBytes line) = [ofBytes line] :=
  lines_of_not_mem (feed_not_mem_ofBytes h)

/-- There is one more line than there are line feeds among the bytes. -/
theorem length_lines_ofBytes (bytes : List UInt8) :
    (lines (ofBytes bytes)).length = bytes.count 0x0A + 1 := by
  induction bytes using line_induction with
  | single line h => rw [lines_ofBytes h, List.count_eq_zero_of_not_mem h, List.length_singleton]
  | feed line rest h ih =>
    rw [ofBytes_append_feed, lines_append, List.length_append, ih, lines_ofBytes h, List.count_append,
      List.count_eq_zero_of_not_mem h, List.count_cons_self, List.length_singleton]
    omega

/-- The bytes with a carriage return before every line feed. -/
def crlf (bytes : List UInt8) : List UInt8 :=
  bytes.flatMap fun b => if b = 0x0A then [0x0D, 0x0A] else [b]

theorem crlf_of_not_mem {line : List UInt8} (h : 0x0A ∉ line) : crlf line = line := by
  induction line with
  | nil => rfl
  | cons b line ih =>
    rw [List.mem_cons, not_or] at h
    have hb : b ≠ 0x0A := fun hfeed => h.1 hfeed.symm
    have hline : crlf line = line := ih h.2
    rw [crlf, List.flatMap_cons, if_neg hb]
    exact congrArg (b :: ·) hline

theorem crlf_append_feed {line : List UInt8} (h : 0x0A ∉ line) (rest : List UInt8) :
    crlf (line ++ 0x0A :: rest) = line ++ 0x0D :: 0x0A :: crlf rest := by
  have hline : crlf line = line := crlf_of_not_mem h
  rw [crlf] at hline
  rw [crlf, List.flatMap_append, hline, List.flatMap_cons, if_pos rfl]
  rfl

/-- A blank at the end of a text is in none of its fields. -/
theorem fields_append_blank {g : Glyph} (h : g.isBlank = true) (t : Text) :
    fields (t ++ [g]) = fields t := by
  rw [fields, segments_append t h, List.filter_append]
  exact List.append_nil _

end Text

/-! ## Assembling the lines -/

/-- The error as it stands `count` lines further down. -/
def AssembleError.below (count : Nat) (e : AssembleError) : AssembleError :=
  ⟨count + e.line, e.error⟩

namespace Assembly

/-- Only the number in an error depends on where the lines are counted from. -/
theorem assembleLines_add (count number : Nat) (lines : List Text) :
    assembleLines (count + number) lines
      = (assembleLines number lines).mapError (AssembleError.below count) := by
  induction lines generalizing number with
  | nil => rfl
  | cons line rest ih =>
    have hrest := ih (number + 1)
    rw [← Nat.add_assoc] at hrest
    rw [assembleLines, assembleLines]
    cases assembleLine line with
    | error error => rfl
    | ok found =>
      cases found with
      | none => exact hrest
      | some i =>
        simp only [hrest]
        cases assembleLines (number + 1) rest <;> rfl

/-- **Lines that follow other lines.** They are reached only if the lines before them have no error,
and their instructions come after those. -/
theorem assembleLines_append (number : Nat) (before after : List Text) :
    assembleLines number (before ++ after) = do
      let p ← assembleLines number before
      let q ← assembleLines (before.length + number) after
      return p ++ q := by
  induction before generalizing number with
  | nil =>
    rw [List.nil_append, List.length_nil, Nat.zero_add]
    cases assembleLines number after <;> rfl
  | cons line rest ih =>
    have hrest := ih (number + 1)
    have hnumber : rest.length + (number + 1) = (line :: rest).length + number := by
      rw [List.length_cons]
      omega
    rw [hnumber] at hrest
    rw [List.cons_append, assembleLines, assembleLines]
    cases assembleLine line with
    | error error => rfl
    | ok found =>
      cases found with
      | none => exact hrest
      | some i =>
        simp only [hrest]
        cases assembleLines (number + 1) rest with
        | error e => rfl
        | ok p => cases assembleLines ((line :: rest).length + number) after <;> rfl

/-- The instructions of two texts with a line feed between them. -/
theorem assembleProgram_append (a b : List UInt8) :
    assembleProgram (Text.ofBytes (a ++ 0x0A :: b)) = do
      let p ← assembleProgram (Text.ofBytes a)
      let q ← (assembleProgram (Text.ofBytes b)).mapError (AssembleError.below (a.count 0x0A + 1))
      return p ++ q := by
  unfold assembleProgram
  rw [Text.ofBytes_append_feed, Text.lines_append, assembleLines_append, assembleLines_add,
    Text.length_lines_ofBytes]

/-- A carriage return at the end of a line is part of the comment, or a blank. -/
theorem assembleLine_return (line : Text) : assembleLine (line ++ [.char '\r']) = assembleLine line := by
  have hfields : (uncommented (line ++ [.char '\r'])).fields = (uncommented line).fields := by
    unfold uncommented
    rw [List.takeWhile_append]
    split
    case isTrue hall =>
      have hline : line.takeWhile (· ≠ .char '#') = line :=
        (List.takeWhile_prefix _).eq_of_length hall
      rw [hline]
      exact Text.fields_append_blank (by decide) line
    · rfl
  unfold assembleLine
  rw [hfields]

/-- Assembling depends only on what each line assembles to. -/
theorem assembleLines_congr {lines lines' : List Text}
    (h : lines.map assembleLine = lines'.map assembleLine) (number : Nat) :
    assembleLines number lines = assembleLines number lines' := by
  induction lines generalizing lines' number with
  | nil =>
    have hnil : lines' = [] := List.map_eq_nil_iff.mp h.symm
    rw [hnil]
  | cons line rest ih =>
    cases lines' with
    | nil => cases h
    | cons line' rest' =>
      obtain ⟨hline, hrest⟩ := List.cons.inj h
      rw [assembleLines, assembleLines, hline, ih hrest]

/-- With carriage returns before the line feeds, every line assembles to what it did. -/
theorem map_assembleLine_crlf (bytes : List UInt8) :
    (Text.ofBytes (Text.crlf bytes)).lines.map assembleLine
      = (Text.ofBytes bytes).lines.map assembleLine := by
  induction bytes using Text.line_induction with
  | single line h => rw [Text.crlf_of_not_mem h]
  | feed line rest h ih =>
    have hreturn : Glyph.char '\n' ∉ Text.ofBytes line ++ [.char '\r'] := by
      rw [List.mem_append, not_or]
      exact ⟨Text.feed_not_mem_ofBytes h, by decide⟩
    have hbytes : Text.ofBytes (line ++ 0x0D :: 0x0A :: Text.crlf rest)
        = (Text.ofBytes line ++ [.char '\r']) ++ .char '\n' :: Text.ofBytes (Text.crlf rest) := by
      rw [Text.ofBytes_append (by decide), Text.ofBytes_ascii (by decide), List.append_assoc]
      rfl
    rw [Text.crlf_append_feed h, hbytes, Text.ofBytes_append_feed, Text.lines_append, Text.lines_append,
      Text.lines_of_not_mem hreturn, Text.lines_ofBytes h, List.map_append, List.map_append, ih,
      List.map_singleton, List.map_singleton, assembleLine_return]

theorem assembleProgram_crlf (bytes : List UInt8) :
    assembleProgram (Text.ofBytes (Text.crlf bytes)) = assembleProgram (Text.ofBytes bytes) :=
  assembleLines_congr (map_assembleLine_crlf bytes) 1

/-- The code of two texts with a line feed between them. -/
theorem assemble_append (a b : List UInt8) :
    assemble (Text.ofBytes (a ++ 0x0A :: b)) = do
      let ca ← assemble (Text.ofBytes a)
      let cb ← (assemble (Text.ofBytes b)).mapError (AssembleError.below (a.count 0x0A + 1))
      return ca ++ cb := by
  unfold assemble
  rw [assembleProgram_append]
  cases assembleProgram (Text.ofBytes a) with
  | error e => rfl
  | ok p =>
    cases assembleProgram (Text.ofBytes b) with
    | error e => rfl
    | ok q => exact congrArg Except.ok (Program.encode_append p q)

theorem assemble_crlf (bytes : List UInt8) :
    assemble (Text.ofBytes (Text.crlf bytes)) = assemble (Text.ofBytes bytes) := by
  unfold assemble
  rw [assembleProgram_crlf]

/-- Code that was assembled is the code of instructions. -/
theorem validate_of_assemble {t : Text} {code : List UInt8} (h : assemble t = .ok code) :
    Program.validate code = .ok () := by
  unfold assemble at h
  cases hprogram : assembleProgram t with
  | error e =>
    rw [hprogram] at h
    cases h
  | ok p =>
    rw [hprogram] at h
    have hcode : Program.encode p = code := Except.ok.inj h
    rw [← hcode]
    exact Program.validate_encode p

/-- **Program text is assembled line by line.** For any bytes `a` and `b`, valid UTF-8 or not: with a
line feed between them they assemble to the code of `a` followed by that of `b`; they fail as `a` does,
if it does; if only `b` fails, on its line `k`, they fail in the same way on the line that is then
number `k` after the lines of `a`. Code that was assembled is valid, and a carriage return before every
line feed changes neither the code nor the error. -/
theorem assemble_line_by_line (a b : List UInt8) :
    (∀ ca cb, assemble (Text.ofBytes a) = .ok ca → assemble (Text.ofBytes b) = .ok cb →
      assemble (Text.ofBytes (a ++ 0x0A :: b)) = .ok (ca ++ cb)) ∧
    (∀ e, assemble (Text.ofBytes a) = .error e →
      assemble (Text.ofBytes (a ++ 0x0A :: b)) = .error e) ∧
    (∀ ca k error, assemble (Text.ofBytes a) = .ok ca →
      assemble (Text.ofBytes b) = .error ⟨k, error⟩ →
      assemble (Text.ofBytes (a ++ 0x0A :: b)) = .error ⟨a.count 0x0A + 1 + k, error⟩) ∧
    (∀ ca, assemble (Text.ofBytes a) = .ok ca → Program.validate ca = .ok ()) ∧
    assemble (Text.ofBytes (Text.crlf a)) = assemble (Text.ofBytes a) := by
  refine ⟨?_, ?_, ?_, fun ca h => validate_of_assemble h, assemble_crlf a⟩
  · intro ca cb ha hb
    rw [assemble_append, ha, hb]
    rfl
  · intro e ha
    rw [assemble_append, ha]
    rfl
  · intro ca k error ha hb
    rw [assemble_append, ha, hb]
    rfl

/-- A delay with a stray byte in its comment and a line that is blank beyond ASCII, before an empty
line and a command for the whole strip; and a text that fails on its second line, after them and before
them. -/
theorem assemble_line_by_line_stray_bytes :
    ∃ a b bad : List UInt8, ∃ error : LineError,
      assemble (Text.ofBytes a) = .ok [3, 5] ∧ assemble (Text.ofBytes b) = .ok [4, 1, 2, 3] ∧
      assemble (Text.ofBytes bad) = .error ⟨2, error⟩ ∧
      assemble (Text.ofBytes (a ++ 0x0A :: b)) = .ok [3, 5, 4, 1, 2, 3] ∧
      assemble (Text.ofBytes (a ++ 0x0A :: bad)) = .error ⟨4, error⟩ ∧
      assemble (Text.ofBytes (bad ++ 0x0A :: a)) = .error ⟨2, error⟩ ∧
      Program.validate [3, 5] = .ok () ∧ Text.crlf a ≠ a ∧
      assemble (Text.ofBytes (Text.crlf a)) = .ok [3, 5] := by
  let a : List UInt8 := [0x64, 0x65, 0x6C, 0x61, 0x79, 0x20, 0x35, 0x23, 0xFF, 0x0A, 0xC2, 0x85]
  let b : List UInt8 := [0x0A, 0x61, 0x6C, 0x6C, 0x20, 0x31, 0x20, 0x32, 0x20, 0x33]
  let bad : List UInt8 := [0x0A, 0x78, 0x80]
  have hglyphs : Text.ofBytes a = Text.ofString "delay 5#" ++
      [.stray 0xFF, .char '\n', .char (Char.ofNat 0x85)] := by decide +kernel
  have hglyphs' : Text.ofBytes b = Text.ofString "\nall 1 2 3" := by decide +kernel
  have hglyphsBad : Text.ofBytes bad = [.char '\n', .char 'x', .stray 0x80] := by decide +kernel
  have ha : assemble (Text.ofBytes a) = .ok [3, 5] := by
    rw [hglyphs]
    rfl
  have hb : assemble (Text.ofBytes b) = .ok [4, 1, 2, 3] := by
    rw [hglyphs']
    rfl
  have hbad : assemble (Text.ofBytes bad)
      = .error ⟨2, .unknownInstruction [.char 'x', .stray 0x80]⟩ := by
    rw [hglyphsBad]
    rfl
  obtain ⟨hboth, -, -, hvalid, hcrlf⟩ := assemble_line_by_line a b
  obtain ⟨-, -, hsecond, -, -⟩ := assemble_line_by_line a bad
  obtain ⟨-, hfirst, -, -, -⟩ := assemble_line_by_line bad a
  exact ⟨a, b, bad, _, ha, hb, hbad, hboth _ _ ha hb, hsecond _ _ _ ha hbad, hfirst _ hbad,
    hvalid _ ha, by decide, hcrlf.trans ha⟩

end Assembly

end StripSequencer
