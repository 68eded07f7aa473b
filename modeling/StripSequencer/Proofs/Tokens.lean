import StripSequencer.Text.Blank
import StripSequencer.Text.Numeral

/-!
# `StripSequencer.Proofs.Tokens` — texts that are put together come apart again

Lines that are joined by line feeds, words that are joined by blanks and numbers that are written in
digits are read back as what they were.

## Contents
- `segments_append`: a separator parts the segments before it from those after it.
- `segments_intercalate`, `segments_ended`: cutting a list at separators undoes joining and ending.
- `Text.lines_intercalate`, `Text.fields_intercalate`: the same for lines and for fields.
- `Text.fields_blanks_append`, `Text.fields_word_append`: the fields of a text, from its front.
- `Text.exists_eq_append_trim`, `Text.trim_blanks_append`: what trimming takes away.
- `takeWhile_run`, `dropWhile_run`: where a run of characters ends.
- `toDigits_induction`: the digits of a number, from the first to the last.
- `Numeral.read_decimal`: a number in decimal digits is read back; `Numeral.glyphs_of_read`: what numerals consist of.
-/

namespace StripSequencer

/-! ## Segments -/

section Segments

variable {α : Type} {p : α → Bool} {sep : α}

/-- Without a separator there is one segment. -/
theorem segments_of_forall_not {xs : List α} (h : ∀ x ∈ xs, p x = false) : segments p xs = [xs] := by
  induction xs with
  | nil => rfl
  | cons x xs ih =>
    have hx : p x = false := h x List.mem_cons_self
    rw [segments, ih fun y hy => h y (List.mem_cons_of_mem x hy), hx]
    rfl

theorem segments_ne_nil (xs : List α) : segments p xs ≠ [] := by
  cases xs with
  | nil => exact List.cons_ne_nil _ _
  | cons x xs =>
    rw [segments]
    split
    · exact List.cons_ne_nil _ _
    · split <;> exact List.cons_ne_nil _ _

/-- A separator parts the segments before it from those after it. -/
theorem segments_append (xs : List α) (hsep : p sep = true) (ys : List α) :
    segments p (xs ++ sep :: ys) = segments p xs ++ segments p ys := by
  induction xs with
  | nil => simp [segments, hsep]
  | cons x xs ih =>
    rw [List.cons_append, segments, segments, ih]
    cases hsegments : segments p xs with
    | nil => exact absurd hsegments (segments_ne_nil xs)
    | cons s ss =>
      by_cases hx : p x = true
      · rw [if_pos hx, if_pos hx]
        rfl
      · rw [if_neg hx, if_neg hx]
        rfl

/-- The first separator ends the first segment. -/
theorem segments_append_cons {xs : List α} (h : ∀ x ∈ xs, p x = false) (hsep : p sep = true)
    (ys : List α) : segments p (xs ++ sep :: ys) = xs :: segments p ys := by
  rw [segments_append xs hsep, segments_of_forall_not h]
  rfl

/-- Cutting at the separators undoes joining. -/
theorem segments_intercalate {words : List (List α)} (hne : words ≠ [])
    (h : ∀ word ∈ words, ∀ x ∈ word, p x = false) (hsep : p sep = true) :
    segments p ([sep].intercalate words) = words := by
  induction words with
  | nil => exact absurd rfl hne
  | cons word words ih =>
    have hword : ∀ x ∈ word, p x = false := h word List.mem_cons_self
    cases words with
    | nil =>
      rw [List.intercalate_singleton]
      exact segments_of_forall_not hword
    | cons next words =>
      have hrest := ih (List.cons_ne_nil next words) fun w hw => h w (List.mem_cons_of_mem word hw)
      rw [List.intercalate_cons_cons, List.append_assoc, List.singleton_append,
        segments_append_cons hword hsep, hrest]

/-- When every segment is ended by a separator, an empty one follows the last. -/
theorem segments_ended {words : List (List α)} (h : ∀ word ∈ words, ∀ x ∈ word, p x = false)
    (hsep : p sep = true) : segments p (words.flatMap (· ++ [sep])) = words ++ [[]] := by
  induction words with
  | nil => rfl
  | cons word words ih =>
    have hrest := ih fun w hw => h w (List.mem_cons_of_mem word hw)
    rw [List.flatMap_cons, List.append_assoc, List.singleton_append,
      segments_append_cons (h word List.mem_cons_self) hsep, hrest]
    rfl

/-- An element of a joined list is one of a word or the separator. -/
theorem mem_intercalate {words : List (List α)} {x : α} (h : x ∈ [sep].intercalate words) :
    (∃ word ∈ words, x ∈ word) ∨ x = sep := by
  induction words with
  | nil => cases h
  | cons word words ih =>
    cases words with
    | nil =>
      rw [List.intercalate_singleton] at h
      exact .inl ⟨word, List.mem_cons_self, h⟩
    | cons next words =>
      rw [List.intercalate_cons_cons, List.append_assoc, List.singleton_append] at h
      rcases List.mem_append.mp h with hfirst | hrest
      · exact .inl ⟨word, List.mem_cons_self, hfirst⟩
      · rcases List.mem_cons.mp hrest with hsep | hlater
        · exact .inr hsep
        · rcases ih hlater with ⟨w, hw, hx⟩ | hsep
          · exact .inl ⟨w, List.mem_cons_of_mem word hw, hx⟩
          · exact .inr hsep

/-- Whatever is no separator is in a segment. -/
theorem exists_segment_of_mem {xs : List α} {x : α} (hx : x ∈ xs) (hsep : p x = false) :
    ∃ s ∈ segments p xs, x ∈ s := by
  induction xs with
  | nil => cases hx
  | cons y ys ih =>
    have htail : x ∈ ys → ∃ s ∈ segments p (y :: ys), x ∈ s := by
      intro hmem
      obtain ⟨s, hs, hxs⟩ := ih hmem
      rw [segments]
      split
      · exact ⟨s, List.mem_cons_of_mem _ hs, hxs⟩
      · cases hsegments : segments p ys with
        | nil => exact absurd hsegments (segments_ne_nil ys)
        | cons first others =>
          rw [hsegments] at hs
          rcases List.mem_cons.mp hs with rfl | hothers
          · exact ⟨y :: s, List.mem_cons_self, List.mem_cons_of_mem y hxs⟩
          · exact ⟨s, List.mem_cons_of_mem _ hothers, hxs⟩
    rcases List.mem_cons.mp hx with rfl | hmem
    · -- the first element is in the first segment, which it belongs to
      rw [segments, hsep]
      cases hsegments : segments p ys with
      | nil => exact ⟨[x], List.mem_singleton_self _, List.mem_singleton_self _⟩
      | cons first others => exact ⟨x :: first, List.mem_cons_self, List.mem_cons_self⟩
    · exact htail hmem

/-- What is in a segment is in the list, and no separator. -/
theorem mem_of_mem_segments {xs s : List α} {x : α} (hs : s ∈ segments p xs) (hx : x ∈ s) :
    x ∈ xs ∧ p x = false := by
  induction xs generalizing s with
  | nil =>
    obtain rfl : s = [] := List.mem_singleton.mp hs
    cases hx
  | cons y ys ih =>
    have htail : ∀ {s' : List α}, s' ∈ segments p ys → x ∈ s' → x ∈ y :: ys ∧ p x = false := by
      intro s' hs' hx'
      obtain ⟨hmem, hsep⟩ := ih hs' hx'
      exact ⟨List.mem_cons_of_mem y hmem, hsep⟩
    rw [segments] at hs
    split at hs
    · rcases List.mem_cons.mp hs with rfl | hs
      · cases hx
      · exact htail hs hx
    · next hy =>
      cases hsegments : segments p ys with
      | nil => exact absurd hsegments (segments_ne_nil ys)
      | cons first others =>
        rw [hsegments] at hs htail
        rcases List.mem_cons.mp hs with rfl | hs
        · rcases List.mem_cons.mp hx with rfl | hx
          · exact ⟨List.mem_cons_self, by simpa using hy⟩
          · exact htail List.mem_cons_self hx
        · exact htail (List.mem_cons_of_mem first hs) hx

/-- A map goes inside a joined list. -/
theorem map_intercalate {β : Type} (f : α → β) (glue : List α) (words : List (List α)) :
    (glue.intercalate words).map f = (glue.map f).intercalate (words.map (·.map f)) := by
  induction words with
  | nil => rfl
  | cons word words ih =>
    cases words with
    | nil => simp
    | cons next words =>
      rw [List.intercalate_cons_cons, List.map_append, List.map_append, ih]
      simp only [List.map_cons, List.intercalate_cons_cons]

end Segments

/-! ## Runs -/

section Runs

variable {α : Type} {p : α → Bool} {run rest : List α}

/-- A test tells apart what passes it from what does not. -/
theorem ne_of_test {x y : α} (hx : p x = true) (hy : p y = false) : x ≠ y := by
  rintro rfl
  rw [hx] at hy
  cases hy

/-- A run is as long as what belongs to it. -/
theorem takeWhile_run (hrun : ∀ x ∈ run, p x = true) (hrest : ∀ x ∈ rest.head?, p x = false) :
    (run ++ rest).takeWhile p = run := by
  rw [List.takeWhile_append_of_pos hrun]
  cases rest with
  | nil => simp
  | cons x rest => simp [hrest x rfl]

theorem dropWhile_run (hrun : ∀ x ∈ run, p x = true) (hrest : ∀ x ∈ rest.head?, p x = false) :
    (run ++ rest).dropWhile p = rest := by
  rw [List.dropWhile_append_of_pos hrun]
  cases rest with
  | nil => rfl
  | cons x rest => simp [hrest x rfl]

end Runs

namespace Text

/-- Joined strings are joined texts. -/
theorem ofString_intercalate (glue : String) (words : List String) :
    ofString (glue.intercalate words) = (ofString glue).intercalate (words.map ofString) := by
  unfold ofString
  rw [String.toList_intercalate, map_intercalate, List.map_map]
  rfl

/-- A character is in a text exactly if it is in its string. -/
theorem char_mem_ofString {c : Char} {s : String} : Glyph.char c ∈ ofString s ↔ c ∈ s.toList := by
  simp [ofString]

/-- Lines that are joined by line feeds are the lines of the whole. -/
theorem lines_intercalate {lines : List Text} (hne : lines ≠ [])
    (h : ∀ line ∈ lines, Glyph.char '\n' ∉ line) :
    Text.lines ([.char '\n'].intercalate lines) = lines := by
  refine segments_intercalate hne ?_ (by decide)
  intro line hline g hg
  have hfeed : g ≠ .char '\n' := by
    rintro rfl
    exact h line hline hg
  exact decide_eq_false hfeed

/-- Words that are joined by blanks are the fields of the whole. -/
theorem fields_intercalate {words : List Text} (hne : words ≠ [])
    (h : ∀ word ∈ words, word ≠ [] ∧ ∀ g ∈ word, g.isBlank = false) :
    Text.fields ([.char ' '].intercalate words) = words := by
  unfold fields
  rw [segments_intercalate hne (fun word hword => (h word hword).2) (by decide)]
  refine List.filter_eq_self.mpr ?_
  intro word hword
  simp [(h word hword).1]

theorem fields_cons_blank {g : Glyph} (h : g.isBlank = true) (t : Text) : fields (g :: t) = fields t := by
  simp [fields, segments, h]

/-- Blanks at the front of a text are in none of its fields. -/
theorem fields_blanks_append {blanks : Text} (h : ∀ g ∈ blanks, g.isBlank = true) (t : Text) :
    fields (blanks ++ t) = fields t := by
  induction blanks with
  | nil => rfl
  | cons g blanks ih =>
    rw [List.cons_append, fields_cons_blank (h g List.mem_cons_self)]
    exact ih fun g' hg' => h g' (List.mem_cons_of_mem g hg')

/-- A word that a blank or the end follows is the first field. -/
theorem fields_word_append {word rest : Text} (hne : word ≠ []) (hword : ∀ g ∈ word, g.isBlank = false)
    (hrest : ∀ g ∈ rest.head?, g.isBlank = true) : fields (word ++ rest) = word :: fields rest := by
  cases rest with
  | nil => simp [fields, segments_of_forall_not hword, hne, segments]
  | cons g rest =>
    have hg : g.isBlank = true := hrest g rfl
    rw [fields_cons_blank hg]
    simp [fields, segments_append_cons hword hg, hne]

/-- Whatever is not blank is in a field. -/
theorem exists_field_of_mem {t : Text} {g : Glyph} (hg : g ∈ t) (hblank : g.isBlank = false) :
    ∃ field ∈ fields t, g ∈ field := by
  obtain ⟨s, hs, hgs⟩ := exists_segment_of_mem hg hblank
  refine ⟨s, List.mem_filter.mpr ⟨hs, ?_⟩, hgs⟩
  cases s with
  | nil => cases hgs
  | cons x xs => rfl

/-- Trimming takes blanks away, from the front and from the back. -/
theorem exists_eq_append_trim (t : Text) :
    ∃ front back, t = front ++ (t.trim ++ back) ∧ (∀ g ∈ front, g.isBlank = true) ∧ ∀ g ∈ back, g.isBlank = true := by
  refine ⟨t.takeWhile Glyph.isBlank, ((t.dropWhile Glyph.isBlank).reverse.takeWhile Glyph.isBlank).reverse, ?_, ?_, ?_⟩
  · unfold trim
    rw [← List.reverse_append, List.takeWhile_append_dropWhile, List.reverse_reverse, List.takeWhile_append_dropWhile]
  · exact List.all_eq_true.mp List.all_takeWhile
  · intro g hg
    exact List.all_eq_true.mp List.all_takeWhile g (List.mem_reverse.mp hg)

/-- Nothing is taken away from a word but the blanks before it. -/
theorem trim_blanks_append {blanks word : Text} (hblanks : ∀ g ∈ blanks, g.isBlank = true)
    (hword : ∀ g ∈ word, g.isBlank = false) : trim (blanks ++ word) = word := by
  have hkept : ∀ {t : Text}, (∀ g ∈ t, g.isBlank = false) → t.dropWhile Glyph.isBlank = t := by
    intro t ht
    cases t with
    | nil => rfl
    | cons g t => exact List.dropWhile_cons_of_neg (by simp [ht g List.mem_cons_self])
  unfold trim
  rw [List.dropWhile_append_of_pos hblanks, hkept hword, hkept fun g hg => hword g (List.mem_reverse.mp hg),
    List.reverse_reverse]

end Text

/-! ## Digits -/

/-- The digits of a number grow by the last one: what holds of one digit and is kept when another digit
follows holds of the digits of every number. -/
theorem toDigits_induction {base : Nat} (hbase : 1 < base) {P : Nat → List Char → Prop}
    (single : ∀ d < base, P d [d.digitChar])
    (snoc : ∀ n ds d, 0 < n → d < base → P n ds → P (n * base + d) (ds ++ [d.digitChar]))
    (n : Nat) : P n (Nat.toDigits base n) := by
  induction n using Nat.strongRecOn with
  | _ n ih =>
    by_cases hlt : n < base
    · rw [Nat.toDigits_of_lt_base hlt]
      exact single n hlt
    · have hle : base ≤ n := Nat.le_of_not_lt hlt
      have hpos : 0 < n / base := Nat.div_pos hle (by omega)
      have hmod : n % base < base := Nat.mod_lt n (by omega)
      have hdigits := snoc (n / base) _ (n % base) hpos hmod (ih (n / base) (Nat.div_lt_self (by omega) hbase))
      rwa [Nat.div_add_mod', ← Nat.toDigits_of_base_le hbase hle] at hdigits

theorem isDigit_toDigits {n : Nat} : ∀ c ∈ Nat.toDigits 10 n, c.isDigit = true :=
  fun _ hc => Nat.isDigit_of_mem_toDigits (by decide) (by decide) hc

/-- Only zero is written with a leading zero. -/
theorem toDigits_leading {base n : Nat} (hbase : 1 < base) (hpos : 0 < n) :
    ∃ c cs, Nat.toDigits base n = c :: cs ∧ c ≠ '0' := by
  refine toDigits_induction hbase (P := fun n ds => 0 < n → ∃ c cs, ds = c :: cs ∧ c ≠ '0') ?_ ?_ n hpos
  · intro d _ hd
    exact ⟨d.digitChar, [], rfl, by simpa using Nat.ne_of_gt hd⟩
  · intro n ds d hn _ ih _
    obtain ⟨c, cs, rfl, hc⟩ := ih hn
    exact ⟨c, cs ++ [d.digitChar], rfl, hc⟩

/-- A digit stands for its value. -/
theorem digit?_digitChar {d : Nat} (h : d < 16) : Numeral.digit? (.char d.digitChar) = some d := by
  have hall : ∀ d < 16, Numeral.digit? (.char d.digitChar) = some d := by decide
  exact hall d h

namespace Numeral

/-- Digits are taken from the left. -/
theorem accumulate_append {base limit value : Nat} {t : Text} {value' : Nat}
    (h : accumulate base limit value t = .ok value') (t' : Text) :
    accumulate base limit value (t ++ t') = accumulate base limit value' t' := by
  induction t generalizing value with
  | nil =>
    cases h
    rfl
  | cons g t ih =>
    rw [accumulate] at h
    rw [List.cons_append, accumulate]
    split at h
    · next hsep =>
      rw [if_pos hsep]
      exact ih h
    · next hsep =>
      rw [if_neg hsep]
      split at h
      · cases h
      · next d hd =>
        split at h
        · cases h
        · next hbase =>
          split at h
          · cases h
          · next hlimit =>
            simp only [if_neg hbase, if_neg hlimit]
            exact ih h

/-- One digit of the base is added. -/
theorem accumulate_digit {base limit value d : Nat} (hbase : base ≤ 16) (hd : d < base)
    (hlimit : value * base + d ≤ limit) :
    accumulate base limit value [.char d.digitChar] = .ok (value * base + d) := by
  have hdigit : digit? (.char d.digitChar) = some d := digit?_digitChar (by omega)
  have hsep : Glyph.char d.digitChar ≠ .char '_' := by
    intro heq
    rw [heq] at hdigit
    cases hdigit
  rw [accumulate, if_neg hsep, hdigit]
  simp only [if_neg (Nat.not_le.mpr hd), if_neg (Nat.not_lt.mpr hlimit)]
  rfl

/-- The digits of a number add up to it, if it does not exceed the limit. -/
theorem accumulate_toDigits {base limit n : Nat} (hbase : 1 < base) (hle : base ≤ 16) (h : n ≤ limit) :
    accumulate base limit 0 ((Nat.toDigits base n).map .char) = .ok n := by
  refine toDigits_induction hbase
    (P := fun n ds => n ≤ limit → accumulate base limit 0 (ds.map .char) = .ok n) ?_ ?_ n h
  · intro d hd hlimit
    have hvalue : 0 * base + d = d := by rw [Nat.zero_mul, Nat.zero_add]
    have hone := accumulate_digit hle hd (Nat.le_trans (Nat.le_of_eq hvalue) hlimit)
    rwa [hvalue] at hone
  · intro n ds d _ hd ih hlimit
    -- what is written before the last digit does not exceed the limit either
    have hbefore : n ≤ limit := by
      have := Nat.le_mul_of_pos_right n (Nat.lt_trans Nat.zero_lt_one hbase)
      omega
    rw [List.map_append, accumulate_append (ih hbefore)]
    exact accumulate_digit hle hd hlimit

/-- Without underscores there is nothing to check about them. -/
theorem separatorsOk_of_not_mem {t : Text} (h : Glyph.char '_' ∉ t) (afterDigit : Bool) :
    separatorsOk afterDigit t = true := by
  induction t generalizing afterDigit with
  | nil => rfl
  | cons g t ih =>
    have hg : g ≠ .char '_' := by
      rintro rfl
      exact h List.mem_cons_self
    rw [separatorsOk.eq_def]
    simp only [if_neg hg]
    exact ih (fun hmem => h (List.mem_cons_of_mem g hmem)) true

/-- What is accumulated consists of digits of the base and underscores. -/
theorem digits_of_accumulate {base limit value v : Nat} {t : Text} (h : accumulate base limit value t = .ok v) :
    ∀ g ∈ t, g = .char '_' ∨ ∃ d < base, digit? g = some d := by
  induction t generalizing value with
  | nil =>
    intro g hg
    cases hg
  | cons g t ih =>
    rw [accumulate] at h
    intro g' hg'
    split at h
    · next hsep =>
      rcases List.mem_cons.mp hg' with rfl | htail
      · exact .inl hsep
      · exact ih h g' htail
    · split at h
      · cases h
      · next d hd =>
        split at h
        · cases h
        · next hbase =>
          split at h
          · cases h
          · rcases List.mem_cons.mp hg' with rfl | htail
            · exact .inr ⟨d, Nat.lt_of_not_le hbase, hd⟩
            · exact ih h g' htail

/-- The base of a token is at most sixteen, and only a zero and a base mark stand before its digits. -/
theorem split_spec (t : Text) :
    (split t).1 ≤ 16 ∧ ∀ g ∈ t, g ∈ (split t).2 ∨ g = .char '0' ∨ (markedBase? g).isSome = true := by
  have hmarked : ∀ g base, markedBase? g = some base → base ≤ 16 := by
    intro g base h
    unfold markedBase? at h
    split at h <;> cases h <;> decide
  -- without a base mark the digits are all but the leading zero
  have hzero : ∀ rest : Text, ∀ g ∈ .char '0' :: rest,
      g ∈ rest ∨ g = .char '0' ∨ (markedBase? g).isSome = true := by
    intro rest g hg
    rcases List.mem_cons.mp hg with rfl | hrest
    · exact .inr (.inl rfl)
    · exact .inl hrest
  unfold split
  split
  · split
    · next mark d ds =>
      cases hmark : markedBase? mark with
      | none => exact ⟨Nat.le_of_ble_eq_true rfl, hzero _⟩
      | some base =>
        refine ⟨hmarked mark base hmark, ?_⟩
        intro g hg
        rcases hzero _ g hg with hrest | hfirst
        · rcases List.mem_cons.mp hrest with rfl | hdigits
          · exact .inr (.inr (by rw [hmark]; rfl))
          · exact .inl hdigits
        · exact .inr hfirst
    · exact ⟨Nat.le_of_ble_eq_true rfl, hzero _⟩
  · exact ⟨Nat.le_of_ble_eq_true rfl, fun g hg => .inl hg⟩

/-- **What a numeral consists of**: base marks, underscores, and digits below sixteen. -/
theorem glyphs_of_read {limit v : Nat} {t : Text} (h : read limit t = .ok v) :
    ∀ g ∈ t, (markedBase? g).isSome = true ∨ g = .char '_' ∨ ∃ d < 16, digit? g = some d := by
  obtain ⟨hbase, hsplit⟩ := split_spec t
  unfold read at h
  split at h
  · cases h
  · dsimp only at h
    cases hvalue : accumulate (split t).1 limit 0 (split t).2 with
    | error flaw => rw [hvalue] at h; cases h
    | ok value =>
      intro g hg
      rcases hsplit g hg with hdigits | rfl | hmark
      · rcases digits_of_accumulate hvalue g hdigits with hsep | ⟨d, hd, hdigit⟩
        · exact .inr (.inl hsep)
        · exact .inr (.inr ⟨d, by omega, hdigit⟩)
      · exact .inr (.inr ⟨0, by decide, rfl⟩)
      · exact .inl hmark

/-- A token that does not start with `0` is in base ten. -/
theorem split_of_head?_ne {t : Text} (h : t.head? ≠ some (.char '0')) :
    split t = (10, t) ∧ unmarked t = (false, t) := by
  constructor
  · unfold split
    split
    · exact absurd rfl h
    · rfl
  · unfold unmarked
    split
    · exact absurd rfl h
    · rfl

/-- **Decimal numbers are read back.** -/
theorem read_decimal {limit n : Nat} (h : n ≤ limit) :
    read limit ((Nat.toDigits 10 n).map .char) = .ok n := by
  by_cases hzero : n = 0
  · -- a single zero announces base eight, with no digit after it
    subst hzero
    rfl
  · have hbase : 1 < 10 := by decide
    have hne : ((Nat.toDigits 10 n).map Glyph.char).isEmpty = false := by
      simp [Nat.toDigits_ne_nil]
    have hhead : ((Nat.toDigits 10 n).map Glyph.char).head? ≠ some (.char '0') := by
      obtain ⟨c, cs, hdigits, hc⟩ := toDigits_leading hbase (Nat.pos_of_ne_zero hzero)
      simpa [hdigits] using hc
    have hsep : Glyph.char '_' ∉ (Nat.toDigits 10 n).map Glyph.char := by
      intro hmem
      obtain ⟨c, hc, heq⟩ := List.mem_map.mp hmem
      injection heq with hchar
      exact Nat.underscore_not_in_toDigits (hchar ▸ hc)
    obtain ⟨hsplit, hunmarked⟩ := split_of_head?_ne hhead
    have hvalue := accumulate_toDigits hbase (by decide) h
    unfold read
    simp [hne, hsplit, hunmarked, hvalue, separatorsOk_of_not_mem hsep]

end Numeral

end StripSequencer
