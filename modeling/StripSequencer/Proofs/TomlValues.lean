import StripSequencer.Proofs.ListingText
import StripSequencer.Proofs.TextBytes
import StripSequencer.Toml.Reader
import StripSequencer.Toml.Writer

/-!
# `StripSequencer.Proofs.TomlValues` — written values are read back

The writer puts strings between double quotes and escapes quotes, backslashes and control characters, so a string of any
characters stays on one line. The reader looks for the closing quote first and undoes the escapes afterwards. Integers
are written in decimal digits and checked as tokens: no underscores, no zeros in front, and a value of 64 bits.

## Contents
- `Written`, `written_escapedChar`: the three ways in which a character is written.
- `Written.unescape_append`, `Written.spanBasic_append`, `readBasic_inside`: characters and strings are read back.
- `toString_cases`, `readNumber_integer`: integers are read back.
- `readValue_text`: plain values at the end of a line; `Plain.isShown_of_mem`: what they consist of.
-/

namespace StripSequencer.Toml

/-! ## Escapes -/

/-- The two lower digits of a control character, which its escape is written with. -/
theorem toList_lower_four {n : Nat} (h : n < 128) :
    (Hexadecimal.lower 4 n).toList = ['0', '0', Nat.digitChar (n / 16), Nat.digitChar (n % 16)] := by
  have hall : ∀ n < 128, Hexadecimal.digits 4 n = ['0', '0', Nat.digitChar (n / 16), Nat.digitChar (n % 16)] := by
    decide
  unfold Hexadecimal.lower
  rw [String.toList_ofList, hall n h]

theorem hexChar?_digitChar {n : Nat} (h : n < 128) :
    hexChar? ['0', '0', Nat.digitChar (n / 16), Nat.digitChar (n % 16)] = some (Char.ofNat n) := by
  have hall : ∀ n < 128, hexChar? ['0', '0', Nat.digitChar (n / 16), Nat.digitChar (n % 16)] = some (Char.ofNat n) := by
    decide
  exact hall n h

/-- The characters that are no control characters of ASCII. -/
def isShown (c : Char) : Bool := 0x20 ≤ c.toNat && c.toNat ≠ 0x7F

/-- The characters that are written as they are. -/
def isVerbatim (c : Char) : Bool := c ≠ '"' && c ≠ '\\' && isShown c

/-- How a character stands in a string: as it is, as an escape of one letter, or by its number. -/
inductive Written (c : Char) : List Char → Prop where
  | verbatim (h : isVerbatim c = true) : Written c [c]
  | letter {l : Char} (hl : l ∈ ['"', '\\', 'b', 't', 'n', 'f', 'r']) (h : simpleEscape? l = some c) :
      Written c ['\\', l]
  | number (h : c.toNat < 128) :
      Written c ['\\', 'u', '0', '0', Nat.digitChar (c.toNat / 16), Nat.digitChar (c.toNat % 16)]

theorem written_escapedChar (c : Char) : Written c (escapedChar c).toList := by
  unfold escapedChar
  split
  · exact .letter (by decide) rfl
  · exact .letter (by decide) rfl
  · exact .letter (by decide) rfl
  · exact .letter (by decide) rfl
  · exact .letter (by decide) rfl
  · next hquote hslash _ _ _ =>
    have hnamed : ∀ n, c.toNat = n → Char.ofNat n = c := by
      rintro n rfl
      exact Char.ofNat_toNat c
    split
    · next hback => exact .letter (l := 'b') (by decide) (congrArg some (hnamed _ hback))
    · split
      · next hfeed => exact .letter (l := 'f') (by decide) (congrArg some (hnamed _ hfeed))
      · split
        · next hcontrol =>
          -- what is left of the control characters has no letter and is written by its number
          have hsmall : c.toNat < 128 := by omega
          rw [String.toList_append, toList_lower_four hsmall]
          exact .number hsmall
        · next hplain =>
          rw [String.toList_singleton]
          refine .verbatim ?_
          rw [not_or] at hplain
          simp only [isVerbatim, isShown, Bool.and_eq_true, decide_eq_true_eq]
          exact ⟨⟨hquote, hslash⟩, by omega, hplain.2⟩

/-- A letter after a backslash does not announce a number. -/
theorem letter_facts {l : Char} (h : l ∈ ['"', '\\', 'b', 't', 'n', 'f', 'r']) :
    l ≠ 'x' ∧ l ≠ 'u' ∧ l ≠ 'U' ∧ isShown l = true := by
  simp only [List.mem_cons, List.not_mem_nil, or_false] at h
  rcases h with rfl | rfl | rfl | rfl | rfl | rfl | rfl <;> exact ⟨by decide, by decide, by decide, rfl⟩

theorem verbatim_iff {c : Char} : isVerbatim c = true ↔ c ≠ '"' ∧ c ≠ '\\' ∧ isShown c = true := by
  simp [isVerbatim, and_assoc]

theorem isNewline_of_isShown {c : Char} (h : isShown c = true) : isNewline c = false := by
  have hfeed : c ≠ '\n' := ne_of_test h rfl
  have hreturn : c ≠ '\r' := ne_of_test h rfl
  simp [isNewline, hfeed, hreturn]

/-- Hexadecimal digits stand for themselves inside of a string. -/
theorem verbatim_digitChar {n : Nat} (h : n < 16) : isVerbatim n.digitChar = true := by
  have hall : ∀ n < 16, isVerbatim n.digitChar = true := by decide
  exact hall n h

namespace Written

variable {c : Char} {cs : List Char}

/-- **A written character is read back.** -/
theorem unescape_append (h : Written c cs) (rest : List Char) :
    unescape (cs ++ rest) = (unescape rest).map (c :: ·) := by
  cases h with
  | verbatim h =>
    obtain ⟨-, hslash, -⟩ := verbatim_iff.mp h
    simp [unescape, hslash]
  | @letter l hl h =>
    obtain ⟨hx, hu, hU, -⟩ := letter_facts hl
    rw [List.cons_append, List.cons_append, List.nil_append, unescape, h]
    · cases unescape rest <;> rfl
    · exact fun _ _ _ heq => absurd heq hx
    · exact fun _ _ _ _ _ heq => absurd heq hu
    · exact fun _ _ _ _ _ _ _ _ _ heq => absurd heq hU
  | number h =>
    have hread := hexChar?_digitChar h
    rw [Char.ofNat_toNat] at hread
    simp only [List.cons_append, List.nil_append]
    rw [unescape, hread]
    cases unescape rest <;> rfl

theorem isShown_of_mem (h : Written c cs) {d : Char} (hd : d ∈ cs) : isShown d = true := by
  cases h with
  | verbatim h =>
    rw [List.mem_singleton.mp hd]
    exact (verbatim_iff.mp h).2.2
  | letter hl _ =>
    simp only [List.mem_cons, List.not_mem_nil, or_false] at hd
    rcases hd with rfl | rfl
    · rfl
    · exact (letter_facts hl).2.2.2
  | number h =>
    have hdigit : ∀ n < 16, isShown n.digitChar = true :=
      fun n hn => (verbatim_iff.mp (verbatim_digitChar hn)).2.2
    simp only [List.mem_cons, List.not_mem_nil, or_false] at hd
    rcases hd with rfl | rfl | rfl | rfl | rfl | rfl
    · rfl
    · rfl
    · rfl
    · rfl
    · exact hdigit _ (by omega)
    · exact hdigit _ (by omega)

theorem exists_head (h : Written c cs) : ∃ d tail, cs = d :: tail ∧ d ≠ '"' := by
  cases h with
  | verbatim h => exact ⟨c, [], rfl, (verbatim_iff.mp h).1⟩
  | letter _ _ => exact ⟨_, _, rfl, by decide⟩
  | number _ => exact ⟨_, _, rfl, by decide⟩

/-- The end of a string is not looked for inside of a written character. -/
theorem spanBasic_append (h : Written c cs) (seen rest : List Char) :
    spanBasic seen (cs ++ rest) = spanBasic (cs.reverse ++ seen) rest := by
  have hverbatim : ∀ (c : Char) (seen rest : List Char), isVerbatim c = true →
      spanBasic seen (c :: rest) = spanBasic (c :: seen) rest := by
    intro c seen rest h
    obtain ⟨hquote, hslash, hshown⟩ := verbatim_iff.mp h
    rw [spanBasic, isNewline_of_isShown hshown]
    · rfl
    · exact hquote
    · exact fun _ _ heq _ => hslash heq
  cases h with
  | verbatim h => exact hverbatim c seen rest h
  | @letter l hl h =>
    obtain ⟨-, -, -, hshown⟩ := letter_facts hl
    simp [spanBasic, isNewline_of_isShown hshown]
  | number h =>
    -- only the character right behind the backslash is skipped unseen; the digits pass as they are
    have hfirst := hverbatim _ ('0' :: '0' :: 'u' :: '\\' :: seen)
      (Nat.digitChar (c.toNat % 16) :: rest) (@verbatim_digitChar (c.toNat / 16) (by omega))
    have hsecond := hverbatim _ (Nat.digitChar (c.toNat / 16) :: '0' :: '0' :: 'u' :: '\\' :: seen) rest
      (@verbatim_digitChar (c.toNat % 16) (by omega))
    have hzero := fun seen rest => hverbatim '0' seen rest (by decide)
    have hu : ∀ tail, spanBasic seen ('\\' :: 'u' :: tail) = spanBasic ('u' :: '\\' :: seen) tail := by
      intro tail
      rw [spanBasic]
      rfl
    simp only [List.cons_append, List.nil_append, hu, hzero, hfirst, hsecond]
    rfl

end Written

/-! ## Strings -/

/-- The characters of a string between its quotes. -/
def inside (s : List Char) : List Char := s.flatMap fun c => (escapedChar c).toList

theorem chars_escaped (t : Text) : Text.chars (t.flatMap escapedGlyph) = inside t.chars := by
  induction t with
  | nil => rfl
  | cons g t ih =>
    rw [List.flatMap_cons, Text.chars_append, ih]
    cases g with
    | char c => simp [escapedGlyph, inside]
    | stray b => rfl

theorem chars_quote (t : Text) : (quote t).chars = '"' :: (inside t.chars ++ ['"']) := by
  simp [quote, chars_escaped]

theorem unescape_inside (s : List Char) : unescape (inside s) = some s := by
  induction s with
  | nil => rfl
  | cons c s ih =>
    rw [inside, List.flatMap_cons, (written_escapedChar c).unescape_append]
    exact congrArg (Option.map (c :: ·)) ih

theorem spanBasic_inside (s seen rest : List Char) :
    spanBasic seen (inside s ++ '"' :: rest) = some (seen.reverse ++ inside s, rest) := by
  induction s generalizing seen with
  | nil =>
    rw [inside, List.flatMap_nil, List.append_nil]
    rfl
  | cons c s ih =>
    have hcons : inside (c :: s) = (escapedChar c).toList ++ inside s := List.flatMap_cons
    rw [hcons, List.append_assoc, (written_escapedChar c).spanBasic_append, ih]
    simp

/-- **A string is read back from between its quotes.** -/
theorem readBasic_inside (s rest : List Char) :
    readBasic (inside s ++ '"' :: rest) = some (String.ofList s, rest) := by
  unfold readBasic
  rw [spanBasic_inside]
  simp [unescape_inside]

/-- Nothing of a string, and no character in it, begins with a quote. -/
theorem head_inside_ne (s : List Char) : (inside s).head? ≠ some '"' := by
  cases s with
  | nil => simp [inside]
  | cons c s =>
    obtain ⟨d, tail, hwritten, hd⟩ := (written_escapedChar c).exists_head
    simpa [inside, hwritten] using hd

/-! ## Integers -/

section Digits

variable {digits : List Char}

theorem underscoresOk_digits (h : ∀ c ∈ digits, c.isDigit = true) (afterDigit : Bool)
    (hne : digits ≠ [] ∨ afterDigit = true) : underscoresOk afterDigit digits = true := by
  induction digits generalizing afterDigit with
  | nil => simpa [underscoresOk] using hne
  | cons c digits ih =>
    obtain ⟨hc, hdigits⟩ := List.forall_mem_cons.mp h
    have hunder : c ≠ '_' := ne_of_test hc rfl
    have hhex : isHexDigit c = true := by simp [isHexDigit, hc]
    rw [underscoresOk, hhex, ih hdigits true (.inr rfl)]
    simp [hunder]

theorem baseValue_digits (h : ∀ c ∈ digits, c.isDigit = true) :
    baseValue 10 digits = Nat.ofDigitChars 10 digits 0 := by
  have hkept : digits.filter (· ≠ '_') = digits := by
    apply List.filter_eq_self.mpr
    intro c hc
    exact decide_eq_true (ne_of_test (h c hc) rfl)
  have hfold : ∀ n, digits.foldl (fun n c => n * 10 + digitValue c) n = Nat.ofDigitChars 10 digits n := by
    clear hkept
    induction digits with
    | nil => exact fun _ => rfl
    | cons c digits ih =>
      obtain ⟨hc, hdigits⟩ := List.forall_mem_cons.mp h
      intro n
      rw [List.foldl_cons, ih hdigits, Nat.ofDigitChars_cons, digitValue, if_pos hc, Nat.mul_comm]
  unfold baseValue
  rw [hkept, hfold]

end Digits

/-- A number is written without leading zeros, and without a sign. -/
theorem toDigits_cases (n : Nat) :
    n = 0 ∧ Nat.toDigits 10 n = ['0'] ∨ ∃ c cs, Nat.toDigits 10 n = c :: cs ∧ c ≠ '0' ∧ c ≠ '-' ∧ c ≠ '+' := by
  rcases Nat.eq_zero_or_pos n with rfl | hpos
  · exact .inl ⟨rfl, rfl⟩
  · obtain ⟨c, cs, hdigits, hc⟩ := toDigits_leading (by decide : 1 < 10) hpos
    have hdigit : c.isDigit = true := isDigit_toDigits c (by rw [hdigits]; exact List.mem_cons_self)
    exact .inr ⟨c, cs, hdigits, hc, ne_of_test hdigit rfl, ne_of_test hdigit rfl⟩

theorem baseValue_toDigits (n : Nat) : baseValue 10 (Nat.toDigits 10 n) = n := by
  rw [baseValue_digits isDigit_toDigits, Nat.ofDigitChars_ten_toDigits]

theorem tokenValue_toDigits (n : Nat) : tokenValue (Nat.toDigits 10 n) = n := by
  have hvalue := baseValue_toDigits n
  rcases toDigits_cases n with ⟨rfl, -⟩ | ⟨c, cs, hdigits, hzero, hminus, hplus⟩
  · rfl
  · rw [hdigits] at hvalue ⊢
    rw [tokenValue, hvalue]
    · exact fun _ heq => hzero (List.cons.inj heq).1
    · exact fun _ heq => hzero (List.cons.inj heq).1
    · exact fun _ heq => hzero (List.cons.inj heq).1
    · exact fun _ heq => hminus (List.cons.inj heq).1
    · exact fun _ heq => hplus (List.cons.inj heq).1

/-- A token that is well written and has the value of a number of 64 bits is read as that number. -/
theorem integer?_eq_some {token : List Char} {n : Int64} (hunder : underscoresOk false token = true)
    (hzero : hasLeadingZero token = false) (hvalue : tokenValue token = n.toInt) : integer? token = some n := by
  have hlow : decide (Int64.minValue.toInt ≤ n.toInt) = true := decide_eq_true n.minValue_le_toInt
  have hhigh : decide (n.toInt ≤ Int64.maxValue.toInt) = true := decide_eq_true n.toInt_le
  unfold integer?
  simp only [hvalue, hunder, hzero, hlow, hhigh, Bool.not_false, Bool.and_self, if_true, Int64.ofInt_toInt]

theorem integer?_natural {m : Nat} {n : Int64} (h : (m : Int) = n.toInt) : integer? (Nat.toDigits 10 m) = some n := by
  have hzero : hasLeadingZero (Nat.toDigits 10 m) = false := by
    rcases toDigits_cases m with ⟨-, hdigits⟩ | ⟨c, cs, hdigits, hzero, hminus, hplus⟩
    · rw [hdigits]
      rfl
    · rw [hdigits, hasLeadingZero]
      · exact fun _ _ heq => hzero (List.cons.inj heq).1
      · exact fun _ _ heq => hminus (List.cons.inj heq).1
      · exact fun _ _ heq => hplus (List.cons.inj heq).1
  apply integer?_eq_some
  · exact underscoresOk_digits isDigit_toDigits false (.inl Nat.toDigits_ne_nil)
  · exact hzero
  · rw [tokenValue_toDigits, h]

theorem integer?_negative {m : Nat} {n : Int64} (hpos : 0 < m) (h : -(m : Int) = n.toInt) :
    integer? ('-' :: Nat.toDigits 10 m) = some n := by
  have hzero : hasLeadingZero ('-' :: Nat.toDigits 10 m) = false := by
    obtain ⟨c, cs, hdigits, hzero⟩ := toDigits_leading (by decide : 1 < 10) hpos
    rw [hdigits, hasLeadingZero]
    · rintro _ _ ⟨⟩
    · rintro _ _ ⟨⟩
      exact hzero rfl
    · rintro _ _ ⟨⟩
  apply integer?_eq_some
  · exact underscoresOk_digits isDigit_toDigits false (.inl Nat.toDigits_ne_nil)
  · exact hzero
  · rw [tokenValue, baseValue_toDigits, h]

/-- The end of a line ends a decimal number. -/
theorem readDecimal_line {digits : List Char} (h : ∀ c ∈ digits, c.isDigit = true) (seen rest : List Char) :
    readDecimal seen (digits ++ '\n' :: rest) = integerValue (seen ++ digits) ('\n' :: rest) := by
  have hin : ∀ c ∈ digits, (c.isDigit || decide (c = '_')) = true := by
    intro c hc
    rw [h c hc]
    rfl
  have hout : ∀ c ∈ ('\n' :: rest).head?, (c.isDigit || decide (c = '_')) = false := by
    rintro c ⟨⟩
    rfl
  have hdivider : ¬ ('\n' :: rest).head?.any isFloatDivider = true := by simp [isFloatDivider]
  simp only [readDecimal, takeWhile_run hin hout, dropWhile_run hin hout, if_neg hdivider]

theorem readNumber_natural (m : Nat) (rest : List Char) :
    readNumber (Nat.toDigits 10 m ++ '\n' :: rest) = integerValue (Nat.toDigits 10 m) ('\n' :: rest) := by
  have hstop : ∀ c ∈ ('\n' :: rest).head?, c.isDigit = false := by
    rintro c ⟨⟩
    rfl
  have hunsigned : readUnsigned (Nat.toDigits 10 m ++ '\n' :: rest)
      = integerValue (Nat.toDigits 10 m) ('\n' :: rest) := by
    have hread := @readDecimal_line [] (by simp) (Nat.toDigits 10 m) rest
    rw [List.nil_append, List.append_nil] at hread
    simp only [readUnsigned, takeWhile_run isDigit_toDigits hstop, dropWhile_run isDigit_toDigits hstop]
    exact hread
  rw [← hunsigned]
  -- only a zero could be taken for a base mark or a sign, and nothing but the end of the line follows it
  rcases toDigits_cases m with ⟨-, hdigits⟩ | ⟨c, cs, hdigits, hzero, hminus, hplus⟩
  · rw [hdigits]
    rfl
  · rw [hdigits, List.cons_append, readNumber]
    · exact fun _ heq => hzero (List.cons.inj heq).1
    · exact fun _ heq => hzero (List.cons.inj heq).1
    · exact fun _ heq => hzero (List.cons.inj heq).1
    · exact fun _ heq => hminus (List.cons.inj heq).1
    · exact fun _ heq => hplus (List.cons.inj heq).1

theorem readNumber_negative (m : Nat) (rest : List Char) :
    readNumber ('-' :: Nat.toDigits 10 m ++ '\n' :: rest) = integerValue ('-' :: Nat.toDigits 10 m) ('\n' :: rest) := by
  have hdigit := @isDigit_toDigits m
  obtain ⟨c, cs, hdigits⟩ := List.exists_cons_of_ne_nil (Nat.toDigits_ne_nil (b := 10) (n := m))
  rw [hdigits] at hdigit ⊢
  obtain ⟨hc, hcs⟩ := List.forall_mem_cons.mp hdigit
  rw [List.cons_append, readNumber, List.cons_append, readSigned, if_pos hc, readDecimal_line hcs]
  · rfl
  · rintro _ ⟨⟩
    cases hc
  · rintro _ ⟨⟩
    cases hc

/-- An integer is written in digits, after a minus if it is negative. -/
theorem toString_cases (n : Int) :
    (∃ m : Nat, (m : Int) = n ∧ (toString n).toList = Nat.toDigits 10 m)
    ∨ ∃ m : Nat, 0 < m ∧ -(m : Int) = n ∧ (toString n).toList = '-' :: Nat.toDigits 10 m := by
  rw [Int.toString_eq_repr, Int.repr_eq_if]
  split
  · next hnonneg =>
    refine .inl ⟨n.toNat, Int.toNat_of_nonneg hnonneg, ?_⟩
    rw [Nat.repr_eq_ofList_toDigits, String.toList_ofList]
  · next hneg =>
    refine .inr ⟨(-n).toNat, by omega, by omega, ?_⟩
    rw [String.toList_append, Nat.repr_eq_ofList_toDigits]
    simp

theorem of_mem_toString {n : Int} {c : Char} (h : c ∈ (toString n).toList) : c.isDigit = true ∨ c = '-' := by
  rcases toString_cases n with ⟨m, -, htext⟩ | ⟨m, -, -, htext⟩
  · rw [htext] at h
    exact .inl (isDigit_toDigits c h)
  · rw [htext] at h
    rcases List.mem_cons.mp h with rfl | h
    · exact .inr rfl
    · exact .inl (isDigit_toDigits c h)

/-- **An integer of 64 bits is read back** at the end of a line. -/
theorem readNumber_integer (n : Int64) (rest : List Char) :
    readNumber ((toString n.toInt).toList ++ '\n' :: rest) = some (.integer n, '\n' :: rest) := by
  rcases toString_cases n.toInt with ⟨m, hvalue, htext⟩ | ⟨m, hpos, hvalue, htext⟩
  · rw [htext, readNumber_natural, integerValue, integer?_natural hvalue]
    rfl
  · rw [htext, readNumber_negative, integerValue, integer?_negative hpos hvalue]
    rfl

/-! ## Values -/

theorem skipBlanks_cons {c : Char} (h : isBlank c = false) (rest : List Char) : skipBlanks (c :: rest) = c :: rest := by
  unfold skipBlanks
  rw [List.dropWhile_cons_of_neg (by rw [h]; exact Bool.false_ne_true)]

/-- A quote that is not followed by two more opens a string on one line. -/
theorem readValue_quote {cs body : List Char} (hskip : skipBlanks cs = '"' :: body)
    (hbody : ∀ r, body ≠ '"' :: '"' :: r) (fuel : Nat) : readValue (fuel + 1) cs = (readBasic body).map fun (s, rest) => (.string s, rest) := by
  simp [readValue, hskip]

theorem isBlank_of_number {c : Char} (h : c.isDigit = true ∨ c = '-') : isBlank c = false := by
  rcases h with h | rfl
  · simp [isBlank, ne_of_test h]
  · rfl

/-- A digit or a minus opens a number. -/
theorem readValue_number {cs rest : List Char} {c : Char} (hskip : skipBlanks cs = c :: rest)
    (hc : c.isDigit = true ∨ c = '-') (fuel : Nat) : readValue (fuel + 1) cs = readNumber (c :: rest) := by
  rcases hc with hc | rfl
  · simp [readValue, hskip, ne_of_test hc, hc]
  · simp [readValue, hskip]

/-- The value that is read from the characters of a plain value. -/
def Plain.value : Plain → Value
  | .string t => .string (String.ofList t.chars)
  | .integer n => .integer n

/-- **A plain value is read back** at the end of a line. -/
theorem readValue_text (value : Plain) (fuel : Nat) (rest : List Char) :
    readValue (fuel + 1) (' ' :: (value.text.chars ++ '\n' :: rest)) = some (value.value, '\n' :: rest) := by
  cases value with
  | string t =>
    have hskip : skipBlanks (' ' :: ((quote t).chars ++ '\n' :: rest))
        = '"' :: (inside t.chars ++ '"' :: '\n' :: rest) := by
      simp [chars_quote, skipBlanks, isBlank]
    -- the empty string is two quotes and the end of the line, and not the start of a string of many lines
    have hbody : ∀ r, inside t.chars ++ '"' :: '\n' :: rest ≠ '"' :: '"' :: r := by
      intro r heq
      have hhead := head_inside_ne t.chars
      cases hinside : inside t.chars with
      | nil =>
        rw [hinside] at heq
        cases heq
      | cons c cs =>
        rw [hinside] at heq hhead
        exact hhead (congrArg some (List.cons.inj heq).1)
    exact (readValue_quote hskip hbody fuel).trans (by rw [readBasic_inside]; rfl)
  | integer n =>
    have hread := readNumber_integer n rest
    obtain ⟨c, cs, htext⟩ : ∃ c cs, (toString n.toInt).toList = c :: cs := by
      rcases toString_cases n.toInt with ⟨m, -, htext⟩ | ⟨m, -, -, htext⟩
      · rw [htext]
        exact List.exists_cons_of_ne_nil Nat.toDigits_ne_nil
      · exact ⟨_, _, htext⟩
    have hc : c.isDigit = true ∨ c = '-' := of_mem_toString (by rw [htext]; exact List.mem_cons_self)
    have hskip : skipBlanks (' ' :: ((Plain.integer n).text.chars ++ '\n' :: rest)) = c :: (cs ++ '\n' :: rest) := by
      rw [Plain.text, Text.chars_ofString, htext]
      exact skipBlanks_cons (isBlank_of_number hc) _
    rw [htext] at hread
    exact (readValue_number hskip hc fuel).trans hread

theorem isShown_of_isDigit {c : Char} (h : c.isDigit = true) : isShown c = true := by
  have hrange := Char.isDigit_iff_toNat.mp h
  have hzero : '0'.toNat = 0x30 := rfl
  have hnine : '9'.toNat = 0x39 := rfl
  simp only [isShown, Bool.and_eq_true, decide_eq_true_eq]
  omega

/-- No control character stands in a written value. -/
theorem Plain.isShown_of_mem {value : Plain} {c : Char} (h : c ∈ value.text.chars) : isShown c = true := by
  cases value with
  | string t =>
    have hquote : isShown '"' = true := rfl
    rw [Plain.text, chars_quote, List.mem_cons, List.mem_append, List.mem_singleton] at h
    rcases h with rfl | h | rfl
    · exact hquote
    · obtain ⟨d, -, hd⟩ := List.mem_flatMap.mp h
      exact (written_escapedChar d).isShown_of_mem hd
    · exact hquote
  | integer n =>
    rw [Plain.text, Text.chars_ofString] at h
    rcases of_mem_toString h with h | rfl
    · exact isShown_of_isDigit h
    · rfl

end StripSequencer.Toml
