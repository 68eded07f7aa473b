import StripSequencer.Listing
import StripSequencer.Proofs.Tokens

/-!
# `StripSequencer.Proofs.ListingText` — listings can be read back

A listing is text. `Listing.read?` takes it apart into rows again: the digits at the front of a line are
the offset, two characters say whether the row is marked, and the content is the rest of the line. Every
listing is read back as the rows that it was made from, also where offsets take more than four digits.

## Contents
- `Hexadecimal.value?`, with `value?_upper`: padded hexadecimal numbers are read back.
- `Listing.decimal?`, with `decimal?_toString`: decimal numbers are read back.
- `Listing.Row.read?`, with `Row.read?_line`; `Listing.read?`, with `read?_render`.
-/

namespace StripSequencer

namespace Hexadecimal

/-- The value of a hexadecimal digit, in either case. -/
def digitValue? (c : Char) : Option Nat := (Numeral.digit? (.char c)).filter (· < 16)

/-- The value of digits that follow digits of the given value. -/
def valueFrom? : Nat → List Char → Option Nat
  | value, [] => some value
  | value, c :: cs =>
    match digitValue? c with
    | none => none
    | some d => valueFrom? (value * 16 + d) cs

/-- The value of hexadecimal digits; there has to be one. -/
def value? (cs : List Char) : Option Nat := if cs.isEmpty then none else valueFrom? 0 cs

theorem digitValue?_upper {d : Nat} (h : d < 16) : digitValue? d.digitChar.toUpper = some d := by
  have hall : ∀ d < 16, digitValue? d.digitChar.toUpper = some d := by decide
  exact hall d h

theorem valueFrom?_append {value value' : Nat} {cs : List Char} (h : valueFrom? value cs = some value')
    (cs' : List Char) : valueFrom? value (cs ++ cs') = valueFrom? value' cs' := by
  induction cs generalizing value with
  | nil =>
    cases h
    rfl
  | cons c cs ih =>
    rw [valueFrom?] at h
    rw [List.cons_append, valueFrom?]
    cases hd : digitValue? c with
    | none => rw [hd] at h; cases h
    | some d =>
      rw [hd] at h
      exact ih h

/-- Whatever has a value consists of digits. -/
theorem isSome_of_valueFrom? {value value' : Nat} {cs : List Char} (h : valueFrom? value cs = some value') :
    ∀ c ∈ cs, (digitValue? c).isSome = true := by
  induction cs generalizing value with
  | nil =>
    intro c hc
    cases hc
  | cons c cs ih =>
    rw [valueFrom?] at h
    cases hd : digitValue? c with
    | none => rw [hd] at h; cases h
    | some d =>
      rw [hd] at h
      intro c' hc'
      rcases List.mem_cons.mp hc' with rfl | htail
      · rw [hd]
        rfl
      · exact ih h c' htail

/-- Digits of a number in upper case. -/
theorem valueFrom?_toDigits (n : Nat) :
    valueFrom? 0 ((Nat.toDigits 16 n).map Char.toUpper) = some n := by
  refine toDigits_induction (by omega) (P := fun n ds => valueFrom? 0 (ds.map Char.toUpper) = some n) ?_ ?_ n
  · intro d hd
    simp [valueFrom?, digitValue?_upper hd]
  · intro n ds d _ hd ih
    rw [List.map_append, valueFrom?_append ih]
    simp [valueFrom?, digitValue?_upper hd]

/-- Leading zeros count for nothing. -/
theorem valueFrom?_zeros (k : Nat) : valueFrom? 0 (List.replicate k '0') = some 0 := by
  have hzero : digitValue? '0' = some 0 := rfl
  induction k with
  | zero => rfl
  | succ k ih =>
    rw [List.replicate_succ, valueFrom?, hzero]
    exact ih

theorem valueFrom?_upper (width n : Nat) : valueFrom? 0 (upper width n).toList = some n := by
  have hzero : Char.toUpper '0' = '0' := rfl
  unfold upper digits
  rw [String.toList_ofList, List.map_append, List.map_replicate, hzero,
    valueFrom?_append (valueFrom?_zeros _), valueFrom?_toDigits]

/-- **Hexadecimal numbers are read back**, whatever the width that they are padded to. -/
theorem value?_upper (width n : Nat) : value? (upper width n).toList = some n := by
  have hne : (upper width n).toList.isEmpty = false := by
    simp [upper, digits, Nat.toDigits_ne_nil]
  unfold value?
  rw [hne, if_neg Bool.false_ne_true]
  exact valueFrom?_upper width n

/-- A padded number consists of digits. -/
theorem isSome_of_mem_upper {width n : Nat} {c : Char} (h : c ∈ (upper width n).toList) :
    (digitValue? c).isSome = true :=
  isSome_of_valueFrom? (valueFrom?_upper width n) c h

/-- What is no digit does not occur in a number. -/
theorem not_mem_upper {c : Char} (h : digitValue? c = none) (width n : Nat) :
    c ∉ (upper width n).toList := by
  intro hmem
  have hdigit := isSome_of_mem_upper hmem
  rw [h] at hdigit
  cases hdigit

end Hexadecimal

namespace Listing

/-! ## Decimal numbers -/

/-- The number that decimal digits stand for. -/
def decimal? (cs : List Char) : Option Nat :=
  if cs ≠ [] ∧ cs.all Char.isDigit then some (Nat.ofDigitChars 10 cs 0) else none

theorem toList_toString (n : Nat) : (toString n).toList = Nat.toDigits 10 n := by
  rw [Nat.toString_eq_ofList_toDigits, String.toList_ofList]

theorem decimal?_toString (n : Nat) : decimal? (toString n).toList = some n := by
  have hdigits : (Nat.toDigits 10 n).all Char.isDigit = true := by
    refine List.all_eq_true.mpr ?_
    intro c hc
    exact Nat.isDigit_of_mem_toDigits (by decide) (by decide) hc
  unfold decimal?
  rw [toList_toString, if_pos ⟨Nat.toDigits_ne_nil, hdigits⟩, Nat.ofDigitChars_ten_toDigits]

/-- What is no digit does not occur in a number. -/
theorem not_mem_toString {c : Char} (h : c.isDigit = false) (n : Nat) : c ∉ (toString n).toList := by
  rw [toList_toString]
  intro hmem
  have hdigit := Nat.isDigit_of_mem_toDigits (by decide) (by decide) hmem
  rw [h] at hdigit
  cases hdigit

/-! ## Rows -/

/-- The characters of a row's line, without the line feed. -/
def Row.line (r : Row) : List Char :=
  (Hexadecimal.offset r.offset).toList ++ (if r.marked then '>' else ' ') :: ' ' :: r.content.toList

/-- Reads a row from its line. -/
def Row.read? (line : List Char) : Option Row :=
  let column := line.takeWhile fun c => (Hexadecimal.digitValue? c).isSome
  match Hexadecimal.value? column, line.drop column.length with
  | some offset, mark :: ' ' :: content =>
    if mark = ' ' then some ⟨offset, false, String.ofList content⟩
    else if mark = '>' then some ⟨offset, true, String.ofList content⟩
    else none
  | _, _ => none

/-- Reads the rows of a listing, each of which is ended by a line feed. -/
def read? (text : String) : Option (List Row) :=
  let lines := segments (· = '\n') text.toList
  if lines.getLast? = some [] then lines.dropLast.mapM Row.read? else none

theorem Row.toList_text (r : Row) : r.text.toList = r.line ++ ['\n'] := by
  unfold Row.text Row.line
  cases r.marked <;> simp

/-- **A row is read back from its line.** The column ends at the mark, which is no digit. -/
theorem Row.read?_line (r : Row) : Row.read? r.line = some r := by
  have hdigits : ∀ c ∈ (Hexadecimal.offset r.offset).toList, (Hexadecimal.digitValue? c).isSome = true :=
    fun c hc => Hexadecimal.isSome_of_mem_upper hc
  have hmark : (Hexadecimal.digitValue? (if r.marked then '>' else ' ')).isSome = false := by
    cases r.marked <;> rfl
  have hcolumn : r.line.takeWhile (fun c => (Hexadecimal.digitValue? c).isSome)
      = (Hexadecimal.offset r.offset).toList := by
    unfold Row.line
    rw [List.takeWhile_append_of_pos hdigits, List.takeWhile_cons_of_neg (by simp [hmark]), List.append_nil]
  have hrest : r.line.drop (Hexadecimal.offset r.offset).toList.length
      = (if r.marked then '>' else ' ') :: ' ' :: r.content.toList := List.drop_left
  have hvalue : Hexadecimal.value? (Hexadecimal.offset r.offset).toList = some r.offset :=
    Hexadecimal.value?_upper 4 r.offset
  obtain ⟨offset, marked, content⟩ := r
  unfold Row.read?
  simp only [hcolumn, hrest, hvalue]
  cases marked <;> simp

/-- A line feed in a row's line is one in its content. -/
theorem Row.not_mem_line {r : Row} (h : '\n' ∉ r.content.toList) : '\n' ∉ r.line := by
  have hcolumn : '\n' ∉ (Hexadecimal.offset r.offset).toList := Hexadecimal.not_mem_upper rfl 4 r.offset
  unfold Row.line
  cases r.marked <;> simp [hcolumn, h]

theorem mapM_read?_line (rows : List Row) : (rows.map Row.line).mapM Row.read? = some rows := by
  induction rows with
  | nil => rfl
  | cons r rows ih => simp [Row.read?_line, ih]

/-- The lines of a listing are those of its rows; an empty one follows the last line feed. -/
theorem segments_render {rows : List Row} (h : ∀ r ∈ rows, '\n' ∉ r.content.toList) :
    segments (· = '\n') (render rows).toList = rows.map Row.line ++ [[]] := by
  have htext : (render rows).toList = (rows.map Row.line).flatMap (· ++ ['\n']) := by
    unfold render
    simp only [String.toList_join, List.flatMap_map, Row.toList_text]
  rw [htext]
  refine segments_ended ?_ (by decide)
  intro line hline c hc
  obtain ⟨r, hr, rfl⟩ := List.mem_map.mp hline
  have hne : c ≠ '\n' := by
    rintro rfl
    exact Row.not_mem_line (h r hr) hc
  exact decide_eq_false hne

/-- **A listing is read back as its rows.** -/
theorem read?_render {rows : List Row} (h : ∀ r ∈ rows, '\n' ∉ r.content.toList) :
    read? (render rows) = some rows := by
  unfold read?
  simp only [segments_render h, List.getLast?_concat, List.dropLast_concat, mapM_read?_line]
  rfl

end Listing

end StripSequencer
