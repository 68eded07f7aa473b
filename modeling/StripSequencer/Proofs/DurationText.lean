import Mathlib.Tactic.Ring
import StripSequencer.Duration
import StripSequencer.Proofs.ListingText

/-!
# `StripSequencer.Proofs.DurationText` — durations are read back from their texts

The text of a duration is a sign and terms: whole hours and minutes, and a number of seconds or of a smaller unit with a
fraction. The reader sums the terms up. It computes each fraction of a unit in fractions of 53 binary digits, and
rounds after every step; all numbers on the way are whole and have fewer digits than that, so nothing is ever rounded.

## Contents
- `Fraction.Is`, `Fraction.Is.rounded`: whole numbers with 53 digits are not rounded.
- `Duration.exists_fraction`, `Duration.fractionPart_decimals`: the digits after a point, written and read.
- `Duration.splitTerm_chars`, `Duration.Adds`, `Adds.sumTerms_eq`: terms are split off and summed up.
- `Duration.adds_magnitudeText`, `Duration.parse_of_adds`, `Duration.parse_text`: every duration is read back.
-/

namespace StripSequencer

/-! ## Whole fractions -/

namespace Fraction

/-- The fraction stands for a whole number. -/
structure Is (f : Fraction) (n : Nat) : Prop where
  positive : 0 < f.denominator
  value : f.numerator = n * f.denominator

variable {f g : Fraction} {m n : Nat}

theorem is_whole (n : Nat) : (⟨n, 1⟩ : Fraction).Is n := ⟨Nat.one_pos, (Nat.mul_one n).symm⟩

theorem Is.floor_eq (h : f.Is n) : f.floor = n := by
  unfold floor
  rw [h.value, Nat.mul_div_cancel n h.positive]

theorem scale_natCast (k : Nat) (f : Fraction) : f.scale k = ⟨f.numerator * 2 ^ k, f.denominator⟩ := by
  simp [scale, Nat.shiftLeft_eq]

theorem scale_neg_natCast (k : Nat) (f : Fraction) : f.scale (-k) = ⟨f.numerator, f.denominator * 2 ^ k⟩ := by
  cases k with
  | zero => simp [scale]
  | succ k =>
    have hneg : ¬ 0 ≤ -((k + 1 : Nat) : Int) := by omega
    rw [scale, if_neg hneg, Int.neg_neg, Int.toNat_natCast, Nat.shiftLeft_eq]

theorem roundDiv_mul (n : Nat) {d : Nat} (hd : 0 < d) : roundDiv (n * d) d = n := by
  unfold roundDiv
  rw [Nat.mul_mod_left, Nat.mul_zero, if_pos hd, Nat.mul_div_cancel n hd]

/-- A whole number with 53 digits has to be scaled up, if at all. Where the lengths of numerator and denominator let
the exponent be guessed as -1, the guess is corrected. -/
theorem Is.shift_nonneg (h : f.Is n) (hn : n < 2 ^ precision) (hne : f.numerator ≠ 0) : 0 ≤ f.shift := by
  have hbelow : f.numerator < 2 ^ precision * f.denominator := by
    rw [h.value]
    exact Nat.mul_lt_mul_of_pos_right hn h.positive
  have hlog : Nat.log2 f.numerator < 54 + Nat.log2 f.denominator := by
    apply (Nat.log2_lt hne).mpr
    calc f.numerator < 2 ^ precision * f.denominator := hbelow
      _ ≤ 2 ^ precision * 2 ^ (Nat.log2 f.denominator + 1) := Nat.mul_le_mul_left _ (Nat.le_of_lt Nat.lt_log2_self)
      _ = 2 ^ (54 + Nat.log2 f.denominator) := by
        rw [← Nat.pow_add]
        congr 1
        unfold precision
        omega
  unfold shift
  by_cases hguess : 0 ≤ ((precision - 1 : Nat) : Int) - ((Nat.log2 f.numerator : Int) - Nat.log2 f.denominator)
  · dsimp only
    split <;> omega
  · -- the lengths differ by one more than those of a number that fits, so the guess is too low and the test notices it
    have hone : ((precision - 1 : Nat) : Int) - ((Nat.log2 f.numerator : Int) - Nat.log2 f.denominator)
        = -(1 : Nat) := by
      unfold precision at hguess ⊢
      omega
    have hsmall : f.numerator < (f.denominator * 2 ^ 1) <<< (precision - 1) := by
      rw [Nat.shiftLeft_eq, Nat.mul_assoc, Nat.mul_comm]
      exact hbelow
    dsimp only
    rw [hone, scale_neg_natCast, if_pos hsmall]
    decide

/-- **Whole numbers with 53 digits are not rounded.** -/
theorem Is.rounded (h : f.Is n) (hn : n < 2 ^ precision) : f.rounded.Is n := by
  unfold Fraction.rounded
  by_cases hzero : f.numerator = 0
  · have hn0 : n = 0 := by
      have hvalue := h.value
      rw [hzero] at hvalue
      exact (Nat.mul_eq_zero.mp hvalue.symm).resolve_right (Nat.ne_of_gt h.positive)
    rw [if_pos hzero, hn0]
    exact is_whole 0
  · obtain ⟨k, hk⟩ := Int.eq_ofNat_of_zero_le (h.shift_nonneg hn hzero)
    have hround : roundDiv (f.numerator * 2 ^ k) f.denominator = n * 2 ^ k := by
      rw [h.value, Nat.mul_right_comm]
      exact roundDiv_mul (n * 2 ^ k) h.positive
    rw [if_neg hzero, hk, scale_natCast, scale_neg_natCast, hround]
    exact ⟨by simp, by simp⟩

theorem is_ofNat (hn : n < 2 ^ precision) : (ofNat n).Is n := (is_whole n).rounded hn

theorem Is.mul (hf : f.Is m) (hg : g.Is n) (h : m * n < 2 ^ precision) : (f.mul g).Is (m * n) := by
  apply Is.rounded _ h
  constructor
  · exact Nat.mul_pos hf.positive hg.positive
  · dsimp only
    rw [hf.value, hg.value]
    ring

theorem Is.div (hf : f.Is (m * n)) (hg : g.Is n) (hn : 0 < n) (h : m < 2 ^ precision) : (f.div g).Is m := by
  apply Is.rounded _ h
  constructor
  · dsimp only
    rw [hg.value]
    exact Nat.mul_pos hf.positive (Nat.mul_pos hn hg.positive)
  · dsimp only
    rw [hf.value, hg.value]
    ring

end Fraction

namespace Duration

/-! ## Digits -/

theorem digitValue_lt {c : Char} (h : c.isDigit = true) : digitValue c < 10 := by
  have hrange := Char.isDigit_iff_toNat.mp h
  have hnine : '9'.toNat = '0'.toNat + 9 := rfl
  unfold digitValue
  omega

theorem ofDigitChars_lt {digits : List Char} (h : ∀ c ∈ digits, c.isDigit = true) :
    Nat.ofDigitChars 10 digits 0 < 10 ^ digits.length := by
  induction digits with
  | nil => exact Nat.one_pos
  | cons c digits ih =>
    obtain ⟨hc, hdigits⟩ := List.forall_mem_cons.mp h
    have hvalue : digitValue c ≤ 9 := Nat.le_of_lt_succ (digitValue_lt hc)
    rw [Nat.ofDigitChars_cons, Nat.mul_zero, Nat.zero_add, Nat.ofDigitChars_eq_ofDigitChars_zero]
    calc 10 ^ digits.length * digitValue c + Nat.ofDigitChars 10 digits 0
        < 10 ^ digits.length * 9 + 10 ^ digits.length :=
          Nat.add_lt_add_of_le_of_lt (Nat.mul_le_mul_left _ hvalue) (ih hdigits)
      _ = 10 ^ (c :: digits).length := by
          rw [List.length_cons, Nat.pow_succ]
          ring

/-- Digits that follow a number do not make it smaller. -/
theorem le_ofDigitChars (digits : List Char) (n : Nat) : n ≤ Nat.ofDigitChars 10 digits n := by
  rw [Nat.ofDigitChars_eq_ofDigitChars_zero]
  have hpos : 0 < 10 ^ digits.length := Nat.pow_pos (by decide)
  exact Nat.le_add_right_of_le (Nat.le_mul_of_pos_left n hpos)

/-- Digits are read as long as their number is within the limit. -/
theorem foldlM_digits {digits : List Char} {n : Nat} (h : Nat.ofDigitChars 10 digits n ≤ limit) :
    digits.foldlM (fun n c => if limit < n * 10 + digitValue c then none else some (n * 10 + digitValue c)) n
      = some (Nat.ofDigitChars 10 digits n) := by
  induction digits generalizing n with
  | nil => rfl
  | cons c digits ih =>
    have hnext : 10 * n + (c.toNat - '0'.toNat) = n * 10 + digitValue c := by rw [Nat.mul_comm]; rfl
    rw [Nat.ofDigitChars_cons, hnext] at h ⊢
    have hle := Nat.le_trans (le_ofDigitChars digits (n * 10 + digitValue c)) h
    rw [List.foldlM_cons, if_neg (Nat.not_lt.mpr hle)]
    exact ih h

theorem wholePart?_toDigits {n : Nat} (h : n ≤ limit) : wholePart? (Nat.toDigits 10 n) = some n := by
  have hvalue : Nat.ofDigitChars 10 (Nat.toDigits 10 n) 0 = n := Nat.ofDigitChars_ten_toDigits
  unfold wholePart?
  rw [foldlM_digits (by rwa [hvalue]), hvalue]

/-! ## Fractions of a unit -/

/-- Digits after a point, if there are any. -/
def pointed (digits : List Char) : List Char := if digits.isEmpty then [] else '.' :: digits

theorem toList_pointed (digits : List Char) :
    (if digits.isEmpty then "" else "." ++ String.ofList digits).toList = pointed digits := by
  unfold pointed
  split
  · rfl
  · simp

/-- The digits stand for the last places of a number; the places that are missing at their end are zeros. -/
structure IsFraction (places n : Nat) (digits : List Char) : Prop where
  isDigit : ∀ c ∈ digits, c.isDigit = true
  length_le : digits.length ≤ places
  value : Nat.ofDigitChars 10 digits 0 * 10 ^ (places - digits.length) = n % 10 ^ places

/-- What is dropped from the end of digits are zeros. -/
theorem exists_zeros (digits : List Char) :
    ∃ k, (digits.reverse.dropWhile (· = '0')).reverse ++ List.replicate k '0' = digits := by
  let zeros := digits.reverse.takeWhile (· = '0')
  have hzeros : ∀ c ∈ zeros, c = '0' := by
    intro c hc
    have hzero := List.all_eq_true.mp List.all_takeWhile c hc
    exact of_decide_eq_true hzero
  refine ⟨zeros.length, ?_⟩
  rw [← List.reverse_replicate, ← List.eq_replicate_of_mem hzeros, ← List.reverse_append,
    List.takeWhile_append_dropWhile, List.reverse_reverse]

theorem IsFraction.of_padded {places n k : Nat} {kept padded : List Char} (h : kept ++ List.replicate k '0' = padded)
    (hdigits : ∀ c ∈ padded, c.isDigit = true) (hlength : padded.length = places)
    (hvalue : Nat.ofDigitChars 10 padded 0 = n % 10 ^ places) : IsFraction places n kept := by
  subst h
  rw [List.length_append, List.length_replicate] at hlength
  refine ⟨fun c hc => hdigits c (List.mem_append_left _ hc), by omega, ?_⟩
  have hmissing : places - kept.length = k := by omega
  rw [hmissing, ← hvalue, Nat.ofDigitChars_append, Nat.ofDigitChars_replicate_zero, Nat.mul_comm]

theorem exists_fraction {places : Nat} (hplaces : 0 < places) (n : Nat) :
    ∃ digits, IsFraction places n digits ∧ (fractionText places n).toList = pointed digits := by
  let digits := Nat.toDigits 10 (n % 10 ^ places)
  let padded := List.replicate (places - digits.length) '0' ++ digits
  have hfits : digits.length ≤ places :=
    (Nat.length_toDigits_le_iff (by decide) hplaces).mpr (Nat.mod_lt _ (Nat.pow_pos (by decide)))
  obtain ⟨k, hk⟩ := exists_zeros padded
  refine ⟨_, IsFraction.of_padded hk ?_ ?_ ?_, ?_⟩
  · intro c hc
    rcases List.mem_append.mp hc with hc | hc
    · rw [List.eq_of_mem_replicate hc]
      rfl
    · exact isDigit_toDigits c hc
  · simp only [padded, List.length_append, List.length_replicate]
    omega
  · simp only [padded, digits]
    rw [Nat.ofDigitChars_append, Nat.ofDigitChars_replicate_zero, Nat.mul_zero, Nat.ofDigitChars_ten_toDigits]
  · exact toList_pointed _

/-- What is known of the digits after a point, as long as none of them is dropped. -/
structure Decimals.Reads (d : Decimals) (digits : List Char) : Prop where
  isDigit : ∀ c ∈ digits, c.isDigit = true
  value : d.value = Nat.ofDigitChars 10 digits 0
  scale : d.scale.Is (10 ^ digits.length)
  full : d.full = false

/-- One digit more, of at most nine. -/
theorem Decimals.Reads.push {d : Decimals} {digits : List Char} {c : Char} (h : d.Reads digits)
    (hc : c.isDigit = true) (hlength : digits.length < 9) : (d.push c).Reads (digits ++ [c]) := by
  have hpower : 10 ^ digits.length ≤ 10 ^ 8 := Nat.pow_le_pow_right (by decide) (by omega)
  have hvalue : d.value < 10 ^ 8 := by
    rw [h.value]
    exact Nat.lt_of_lt_of_le (ofDigitChars_lt h.isDigit) hpower
  have hdigit := digitValue_lt hc
  have hroom : ¬ (limit - 1) / 10 < d.value := by
    have hlimit : 10 ^ 8 ≤ (limit - 1) / 10 := by decide
    omega
  have hfits : ¬ limit < d.value * 10 + digitValue c := by
    have hlimit : 10 ^ 9 ≤ limit := by decide
    omega
  have hpush : d.push c = ⟨d.value * 10 + digitValue c, d.scale.mul ⟨10, 1⟩, false⟩ := by
    simp [Decimals.push, h.full, hroom, hfits]
  rw [hpush]
  constructor
  · intro c' hc'
    rcases List.mem_append.mp hc' with hc' | hc'
    · exact h.isDigit c' hc'
    · rw [List.mem_singleton.mp hc']
      exact hc
  · rw [Nat.ofDigitChars_append, ← h.value, Nat.ofDigitChars_cons, Nat.mul_comm]
    rfl
  · rw [List.length_append, List.length_singleton, Nat.pow_succ]
    apply h.scale.mul (Fraction.is_whole 10)
    have hprecision : 10 ^ 8 * 10 < 2 ^ Fraction.precision := by decide
    omega
  · rfl

theorem reads_decimals {digits : List Char} (hdigits : ∀ c ∈ digits, c.isDigit = true) (hlength : digits.length ≤ 9) :
    (decimals digits).Reads digits := by
  -- on the digits that are left, after those that were read
  have hrun : ∀ (rest seen : List Char) (d : Decimals), d.Reads seen → (∀ c ∈ rest, c.isDigit = true) →
      (seen ++ rest).length ≤ 9 → (rest.foldl Decimals.push d).Reads (seen ++ rest) := by
    intro rest
    induction rest with
    | nil =>
      intro seen d h _ _
      rwa [List.append_nil]
    | cons c rest ih =>
      intro seen d h hrest hfits
      obtain ⟨hc, hrest⟩ := List.forall_mem_cons.mp hrest
      have hnext : seen.length < 9 := by
        rw [List.length_append, List.length_cons] at hfits
        omega
      have hread := ih (seen ++ [c]) (d.push c) (h.push hc hnext) hrest (by simpa using hfits)
      rwa [List.append_assoc, List.singleton_append] at hread
  exact hrun digits [] {} ⟨by simp, rfl, Fraction.is_whole 1, rfl⟩ hdigits hlength

/-- **The fraction of a unit is computed exactly**: no step of the computation is rounded. -/
theorem fractionPart_decimals {places n : Nat} {digits : List Char} (h : IsFraction places n digits)
    (hplaces : places ≤ 9) : fractionPart (decimals digits) (10 ^ places) = n % 10 ^ places := by
  have hreads := reads_decimals h.isDigit (Nat.le_trans h.length_le hplaces)
  unfold fractionPart
  rw [hreads.value, ← h.value]
  split
  · next hzero => rw [hzero, Nat.zero_mul]
  · -- dividing the unit by the scale comes out even: it leaves the power of ten of the places that are missing
    have hunit : 10 ^ places = 10 ^ (places - digits.length) * 10 ^ digits.length := by
      rw [← Nat.pow_add, Nat.sub_add_cancel h.length_le]
    have hprecise : ∀ k ≤ places, 10 ^ k < 2 ^ Fraction.precision := by
      intro k hk
      exact Nat.lt_of_le_of_lt (Nat.pow_le_pow_right (by decide) (Nat.le_trans hk hplaces)) (by decide)
    have hquotient :
        ((Fraction.ofNat (10 ^ places)).div (decimals digits).scale).Is (10 ^ (places - digits.length)) := by
      have hwhole := Fraction.is_ofNat (hprecise places (Nat.le_refl _))
      rw [hunit] at hwhole
      rw [hunit]
      exact hwhole.div hreads.scale (Nat.pow_pos (by decide)) (hprecise _ (Nat.sub_le _ _))
    have hdigits := Fraction.is_ofNat (Nat.lt_trans (ofDigitChars_lt h.isDigit) (hprecise _ h.length_le))
    apply (hdigits.mul hquotient _).floor_eq
    rw [h.value]
    exact Nat.lt_trans (Nat.mod_lt _ (Nat.pow_pos (by decide))) (hprecise places (Nat.le_refl _))

/-! ## Terms -/

/-- The characters of a term. -/
def Term.chars (t : Term) : List Char := t.whole ++ pointed t.fraction ++ t.unit

/-- A term that can be told from what follows it: its unit ends where the next number begins. -/
structure Term.Spelled (t : Term) : Prop where
  whole_ne_nil : t.whole ≠ []
  whole : ∀ c ∈ t.whole, c.isDigit = true
  fraction : ∀ c ∈ t.fraction, c.isDigit = true
  unit_ne_nil : t.unit ≠ []
  unit : ∀ c ∈ t.unit, isNumberChar c = false

theorem Term.Spelled.exists_whole {t : Term} (h : t.Spelled) : ∃ d ds, t.whole = d :: ds ∧ d.isDigit = true := by
  obtain ⟨d, ds, hwhole⟩ := List.exists_cons_of_ne_nil h.whole_ne_nil
  exact ⟨d, ds, hwhole, h.whole d (by rw [hwhole]; exact List.mem_cons_self)⟩

theorem Term.Spelled.exists_unit {t : Term} (h : t.Spelled) : ∃ u us, t.unit = u :: us ∧ isNumberChar u = false := by
  obtain ⟨u, us, hunit⟩ := List.exists_cons_of_ne_nil h.unit_ne_nil
  exact ⟨u, us, hunit, h.unit u (by rw [hunit]; exact List.mem_cons_self)⟩

theorem isNumberChar_of_isDigit {c : Char} (h : c.isDigit = true) : isNumberChar c = true := by
  unfold isNumberChar
  rw [h]
  rfl

theorem not_isDigit_of_not_isNumberChar {c : Char} (h : isNumberChar c = false) : c.isDigit = false ∧ c ≠ '.' := by
  unfold isNumberChar at h
  simpa using h

/-- **A term is split off** what follows it, if that is another number or nothing. -/
theorem splitTerm_chars {t : Term} (h : t.Spelled) {rest : List Char}
    (hrest : ∀ c ∈ rest.head?, isNumberChar c = true) : splitTerm (t.chars ++ rest) = (t, rest) := by
  obtain ⟨u, us, hunit, hu⟩ := h.exists_unit
  obtain ⟨hdigit, hpoint⟩ := not_isDigit_of_not_isNumberChar hu
  have hstop : ∀ c ∈ (t.unit ++ rest).head?, c.isDigit = false := by
    intro c hc
    rw [hunit] at hc
    cases hc
    exact hdigit
  have hunits : (t.unit ++ rest).takeWhile (! isNumberChar ·) = t.unit
      ∧ (t.unit ++ rest).dropWhile (! isNumberChar ·) = rest := by
    have hin : ∀ c ∈ t.unit, (! isNumberChar c) = true := by
      intro c hc
      rw [h.unit c hc]
      rfl
    have hout : ∀ c ∈ rest.head?, (! isNumberChar c) = false := by
      intro c hc
      rw [hrest c hc]
      rfl
    exact ⟨takeWhile_run hin hout, dropWhile_run hin hout⟩
  by_cases hfraction : t.fraction = []
  · have hchars : t.chars ++ rest = t.whole ++ (t.unit ++ rest) := by simp [Term.chars, pointed, hfraction]
    unfold splitTerm
    rw [hchars, takeWhile_run h.whole hstop, dropWhile_run h.whole hstop]
    dsimp only
    split
    · next heq =>
      rw [hunit] at heq
      cases heq
      exact absurd rfl hpoint
    · rw [hunits.1, hunits.2, ← hfraction]
  · have hchars : t.chars ++ rest = t.whole ++ '.' :: (t.fraction ++ (t.unit ++ rest)) := by
      simp [Term.chars, pointed, hfraction]
    have hdot : ∀ c ∈ ('.' :: (t.fraction ++ (t.unit ++ rest))).head?, c.isDigit = false := by
      rintro c ⟨⟩
      rfl
    unfold splitTerm
    rw [hchars, takeWhile_run h.whole hdot, dropWhile_run h.whole hdot]
    simp only [takeWhile_run h.fraction hstop, dropWhile_run h.fraction hstop, hunits.1, hunits.2]

/-- The characters are terms that add up to a number of nanoseconds. -/
inductive Adds (text : String) : List Char → Nat → Prop where
  | none : Adds text [] 0
  | term {t : Term} {m n : Nat} {rest : List Char} (hspelled : t.Spelled) (hvalue : t.nanoseconds text = .ok m)
      (hrest : Adds text rest n) : Adds text (t.chars ++ rest) (m + n)

namespace Adds

variable {text : String} {cs : List Char} {n : Nat}

/-- A text of terms is empty or begins with a digit. -/
theorem head (h : Adds text cs n) : ∀ c ∈ cs.head?, c.isDigit = true := by
  cases h with
  | none => simp
  | @term t m n rest hspelled _ _ =>
    obtain ⟨d, ds, hwhole, hd⟩ := hspelled.exists_whole
    intro c hc
    unfold Term.chars at hc
    rw [hwhole] at hc
    cases hc
    exact hd

theorem eq_zero_of_nil (h : Adds text cs n) (hnil : cs = []) : n = 0 := by
  cases h with
  | none => rfl
  | term hspelled _ _ =>
    have hchars := (List.append_eq_nil_iff.mp hnil).1
    exact absurd (List.append_eq_nil_iff.mp hchars).2 hspelled.unit_ne_nil

/-- **Terms are summed up**, after what was summed up before them. -/
theorem sumTerms_eq (h : Adds text cs n) {sum fuel : Nat} (hsum : sum + n ≤ limit) (hfuel : cs.length ≤ fuel) :
    sumTerms text fuel sum cs = .ok (sum + n) := by
  induction h generalizing sum fuel with
  | none => cases fuel <;> rfl
  | @term t m n rest hspelled hvalue hrest ih =>
    obtain ⟨d, ds, hwhole, hd⟩ := hspelled.exists_whole
    have hnumber : isNumberChar d = true := isNumberChar_of_isDigit hd
    have hsplit := splitTerm_chars hspelled fun c hc => isNumberChar_of_isDigit (hrest.head c hc)
    obtain ⟨tail, htail⟩ : ∃ tail, t.chars ++ rest = d :: tail := ⟨_, by rw [Term.chars, hwhole]; rfl⟩
    -- the sum is kept in 64 bits and compared with the limit afterwards; below the limit it does not wrap
    have hsmall : limit < UInt64.size := by decide
    have hwrap : (sum + m) % UInt64.size = sum + m := Nat.mod_eq_of_lt (by omega)
    have hwithin : ¬ limit < sum + m := by omega
    have hshort : rest.length ≤ tail.length := by
      have hlength := congrArg List.length htail
      simp only [Term.chars, hwhole, List.length_append, List.length_cons] at hlength
      omega
    rw [htail] at hsplit hfuel ⊢
    obtain ⟨fuel, rfl⟩ : ∃ k, fuel = k + 1 := ⟨fuel - 1, by rw [List.length_cons] at hfuel; omega⟩
    rw [sumTerms, if_pos hnumber, hsplit]
    simp only [hvalue, bind, Except.bind, hwrap, if_neg hwithin]
    rw [ih (by omega) (by rw [List.length_cons] at hfuel; omega), Nat.add_assoc]

end Adds

/-! ## Magnitudes -/

/-- Units have a size, and are spelled without anything that belongs to a number. -/
theorem of_unit? {unit : String} {size : Nat} (h : unit? unit = some size) :
    0 < size ∧ unit.toList ≠ [] ∧ unit.toList.all (! isNumberChar ·) = true := by
  unfold unit? at h
  split at h
  · next hname => cases h; rw [hname]; exact ⟨by decide, by decide, rfl⟩
  · split at h
    · next hname =>
      cases h
      rcases hname with rfl | rfl | rfl <;> exact ⟨by decide, by decide, rfl⟩
    · split at h
      · next hname => cases h; rw [hname]; exact ⟨by decide, by decide, rfl⟩
      · split at h
        · next hname => cases h; rw [hname]; exact ⟨by decide, by decide, rfl⟩
        · split at h
          · next hname => cases h; rw [hname]; exact ⟨by decide, by decide, rfl⟩
          · split at h
            · next hname => cases h; rw [hname]; exact ⟨by decide, by decide, rfl⟩
            · cases h

section Magnitudes

variable {text unit : String} {count size part : Nat} {fraction : List Char}

/-- A number of units with a fraction of known value, and what follows it. -/
theorem Adds.units (hunit : unit? unit = some size) (hfraction : ∀ c ∈ fraction, c.isDigit = true)
    (hpart : fractionPart (decimals fraction) size = part) (hlimit : count * size + part ≤ limit)
    {rest : List Char} {n : Nat} (hrest : Adds text rest n) :
    Adds text (Nat.toDigits 10 count ++ pointed fraction ++ unit.toList ++ rest) (count * size + part + n) := by
  obtain ⟨hsize, hne, hnumbers⟩ := of_unit? hunit
  have hspelled : (⟨Nat.toDigits 10 count, fraction, unit.toList⟩ : Term).Spelled := {
    whole_ne_nil := Nat.toDigits_ne_nil
    whole := isDigit_toDigits
    fraction := hfraction
    unit_ne_nil := hne
    unit := fun c hc => by simpa using List.all_eq_true.mp hnumbers c hc }
  have hwhole : count * size ≤ limit := by omega
  have hread := wholePart?_toDigits (Nat.le_trans (Nat.le_mul_of_pos_right count hsize) hwhole)
  have hfits : ¬ (limit / size < count ∨ limit < count * size + part) := by
    rw [not_or, Nat.not_lt, Nat.not_lt]
    exact ⟨(Nat.le_div_iff_mul_le hsize).mpr hwhole, hlimit⟩
  have hvalue : (⟨Nat.toDigits 10 count, fraction, unit.toList⟩ : Term).nanoseconds text
      = .ok (count * size + part) := by
    simp [Term.nanoseconds, hread, Nat.toDigits_ne_nil, hne, hunit, hpart, hfits]
  exact .term hspelled hvalue hrest

/-- A whole number of units, and what follows it. -/
theorem Adds.whole (hunit : unit? unit = some size) (hlimit : count * size ≤ limit) {rest : List Char} {n : Nat}
    (hrest : Adds text rest n) : Adds text ((toString count ++ unit).toList ++ rest) (count * size + n) := by
  have hadds := @Adds.units text unit count size 0 [] hunit (by simp) rfl hlimit rest n hrest
  rw [String.toList_append, Listing.toList_toString]
  simpa [pointed] using hadds

/-- A number of units with a fraction that the last places of `n` stand for. -/
theorem Adds.scaled {places n : Nat} (hunit : unit? unit = some (10 ^ places)) (hpos : 0 < places)
    (hplaces : places ≤ 9) (hlimit : count * 10 ^ places + n % 10 ^ places ≤ limit) :
    Adds text (toString count ++ fractionText places n ++ unit).toList (count * 10 ^ places + n % 10 ^ places) := by
  obtain ⟨digits, hdigits, htext⟩ := exists_fraction hpos n
  have hadds := Adds.units hunit hdigits.isDigit (fractionPart_decimals hdigits hplaces) hlimit (@Adds.none text)
  rw [String.toList_append, String.toList_append, Listing.toList_toString, htext]
  simpa using hadds

end Magnitudes

/-- **The text of a number of nanoseconds adds up to it.** -/
theorem adds_magnitudeText {n : Nat} (h : n ≤ limit) (text : String) : Adds text (magnitudeText n).toList n := by
  -- seconds with nine places end every text of a second and more, behind minutes and hours if there are any
  have hlast : Adds text (toString (n / second % 60) ++ fractionText 9 n ++ "s").toList
      (n / second % 60 * second + n % second) := by
    have hle : n / second % 60 * second + n % second ≤ limit := by
      calc n / second % 60 * second + n % second
          ≤ n / second * second + n % second := Nat.add_le_add_right (Nat.mul_le_mul_right _ (Nat.mod_le _ _)) _
        _ = n := Nat.div_add_mod' n second
        _ ≤ limit := h
    exact @Adds.scaled text "s" (n / second % 60) 9 n rfl (by decide) (by decide) hle
  unfold magnitudeText
  split
  · next hzero =>
    subst hzero
    exact @Adds.whole text "s" 0 second rfl (Nat.zero_le _) [] 0 .none
  · split
    · have hwhole := @Adds.whole text "ns" n 1 rfl (by omega) [] 0 .none
      rwa [List.append_nil, Nat.mul_one, Nat.add_zero] at hwhole
    · split
      · have hscaled := @Adds.scaled text "µs" (n / 10 ^ 3) 3 n rfl (by decide) (by decide)
        rw [Nat.div_add_mod'] at hscaled
        exact hscaled h
      · split
        · have hscaled := @Adds.scaled text "ms" (n / 10 ^ 6) 6 n rfl (by decide) (by decide)
          rw [Nat.div_add_mod'] at hscaled
          exact hscaled h
        · dsimp only
          split
          · next hminute =>
            have hsum : n / second % 60 * second + n % second = n := by
              unfold minute second at *
              omega
            rwa [hsum] at hlast
          · split
            · next hhour =>
              have hsum : n / minute * minute + (n / second % 60 * second + n % second) = n := by
                unfold minute second
                omega
              have hminutes := @Adds.whole text "m" (n / minute) minute rfl (by omega) _ _ hlast
              rwa [hsum, ← String.toList_append] at hminutes
            · have hsum : n / hour * hour + (n / minute % 60 * minute + (n / second % 60 * second + n % second))
                  = n := by
                unfold hour minute second
                omega
              have hminutes := @Adds.whole text "m" (n / minute % 60) minute rfl (by omega) _ _ hlast
              have hhours := @Adds.whole text "h" (n / hour) hour rfl (by omega) _ _ hminutes
              simpa only [hsum, String.toList_append, List.append_assoc] using hhours

theorem magnitudeText_ne_nil {n : Nat} (h : n ≤ limit) : (magnitudeText n).toList ≠ [] := by
  by_cases hzero : n = 0
  · subst hzero
    decide
  · intro hnil
    exact hzero ((adds_magnitudeText h "").eq_zero_of_nil hnil)

/-! ## Signs -/

/-- Terms do not begin with a sign. -/
theorem Adds.splitSign_eq {text : String} {cs : List Char} {n : Nat} (h : Adds text cs n) :
    splitSign cs = (false, cs) := by
  have hhead := h.head
  unfold splitSign
  split
  · exact absurd (hhead '-' rfl) (by decide)
  · exact absurd (hhead '+' rfl) (by decide)
  · rfl

/-- Terms end with a unit, which the zero that stands alone does not have. -/
theorem Adds.ne_zero {text : String} {cs : List Char} {n : Nat} (h : Adds text cs n) : cs ≠ ['0'] := by
  cases h with
  | none => decide
  | @term t m n rest hspelled _ _ =>
    intro heq
    obtain ⟨u, us, hunit, hu⟩ := hspelled.exists_unit
    have hmem : u ∈ t.chars ++ rest := by simp [Term.chars, hunit]
    rw [heq] at hmem
    rw [List.mem_singleton.mp hmem] at hu
    exact absurd hu (by decide)

/-- **A sign and terms are read** as the duration that they add up to. Only the least duration has the limit as its
magnitude. -/
theorem parse_of_adds {text : String} {cs : List Char} {n : Nat} (h : Adds text cs n) (hne : cs ≠ []) (hn : n ≤ limit) :
    (text.toList = '-' :: cs → parse text = .ok ⟨Int64.ofInt (-n)⟩)
    ∧ (text.toList = cs → n < limit → parse text = .ok ⟨Int64.ofNat n⟩) := by
  have hsum : sumTerms text cs.length 0 cs = .ok n := by
    have hsum := @Adds.sumTerms_eq text cs n h 0 cs.length (by omega) (Nat.le_refl _)
    rwa [Nat.zero_add] at hsum
  constructor
  · intro htext
    have hsign : splitSign text.toList = (true, cs) := by rw [htext]; rfl
    simp [parse, hsign, h.ne_zero, hne, hsum, bind, Except.bind, pure, Except.pure]
  · intro htext hlt
    have hsign : splitSign text.toList = (false, cs) := by rw [htext]; exact h.splitSign_eq
    simp [parse, hsign, h.ne_zero, hne, hsum, Nat.not_le.mpr hlt, bind, Except.bind, pure, Except.pure]

/-- **Durations are read back.** -/
theorem parse_text (d : Duration) : parse d.text = .ok d := by
  have hlow := d.nanoseconds.le_toInt
  have hhigh := d.nanoseconds.toInt_lt
  have hlimit : limit = 2 ^ 63 := rfl
  have hbound : d.nanoseconds.toInt.natAbs ≤ limit := by omega
  obtain ⟨hnegative, hpositive⟩ :=
    parse_of_adds (adds_magnitudeText hbound d.text) (magnitudeText_ne_nil hbound) hbound
  by_cases hsign : d.nanoseconds.toInt < 0
  · have htext : d.text = "-" ++ magnitudeText d.nanoseconds.toInt.natAbs := if_pos hsign
    have hvalue : -(d.nanoseconds.toInt.natAbs : Int) = d.nanoseconds.toInt := by omega
    rw [hnegative (by rw [htext, String.toList_append]; rfl), hvalue, Int64.ofInt_toInt]
  · have htext : d.text = magnitudeText d.nanoseconds.toInt.natAbs := if_neg hsign
    have hvalue : (d.nanoseconds.toInt.natAbs : Int) = d.nanoseconds.toInt := by omega
    rw [hpositive (by rw [htext]) (by omega), ← Int64.ofInt_eq_ofNat, hvalue, Int64.ofInt_toInt]

end Duration

/-- **Durations round-trip.** Every signed number of 64 bits is read back from its text as a duration, the least and the
largest as well; so no two durations have the same text. -/
theorem durations_round_trip (d : Duration) :
    Duration.parse d.text = .ok d ∧ ∀ e : Duration, e.text = d.text ↔ e = d := by
  refine ⟨d.parse_text, fun e => ⟨?_, fun h => by rw [h]⟩⟩
  intro htext
  have hread := e.parse_text
  rw [htext, d.parse_text] at hread
  exact (Except.ok.inj hread).symm

/-- The least duration is the only one whose magnitude is the limit. -/
example : Duration.text ⟨Int64.minValue⟩ = "-2562047h47m16.854775808s"
    ∧ Duration.parse "2562047h47m16.854775808s" = .error (.invalid "2562047h47m16.854775808s") := by
  decide +kernel

end StripSequencer
