import Mathlib.Data.List.Forall2
import Mathlib.Data.Nat.Digits.Defs
import StripSequencer.Assembly
import StripSequencer.Proofs.Tokens

/-!
# `StripSequencer.Proofs.Operands` — what an operand of program text stands for

`Numeral.Spells` says which number a row of digits stands for in a base, without the reader: the digits of
a number from the highest to the lowest, letters in either case. The reader of operands is then measured
against it. After `0x` the digits count in base sixteen, and digits without a leading zero in base ten. A
leading zero alone moves the whole token to base eight, so that a token of decimal digits is taken for its
value exactly if it is not `Misread`.

## Contents
- `Numeral.accumulate_eq_ok_iff`: the value of a row of digits, and when there is one.
- `Numeral.read_of_head?_ne`, `Numeral.read_marked`, `Numeral.read_leading_zero`: the three kinds of token.
- `Assembly.Slot`: a line that is well formed but for one operand.
- `Assembly.operand_taken_iff_not_misread`: what such a line is assembled to, for each kind of token.
-/

namespace StripSequencer

namespace Numeral

/-! ## Digits and their numbers -/

/-- The glyph is the digit of value `d`, up to fifteen; a letter may be in either case. -/
def Shows (g : Glyph) (d : Nat) : Prop :=
  d < 16 ∧ (g = .char d.digitChar ∨ g = .char d.digitChar.toUpper)

instance (g : Glyph) (d : Nat) : Decidable (Shows g d) := inferInstanceAs (Decidable (_ ∧ _))

/-- The text is a row of digits of the base, the highest first, that stands for `n`. Zeros may lead. -/
def Spells (base : Nat) (t : Text) (n : Nat) : Prop :=
  t ≠ [] ∧ ∃ ds, List.Forall₂ Shows t ds ∧ (∀ d ∈ ds, d < base) ∧ n = Nat.ofDigits base ds.reverse

theorem Shows.digit?_eq {g : Glyph} {d : Nat} (h : Shows g d) : digit? g = some d := by
  have hupper : ∀ d < 16, digit? (.char d.digitChar.toUpper) = some d := by decide
  rcases h with ⟨hlt, rfl | rfl⟩
  · exact digit?_digitChar hlt
  · exact hupper d hlt

theorem Shows.ne_underscore {g : Glyph} {d : Nat} (h : Shows g d) : g ≠ .char '_' := by
  rintro rfl
  have hdigit := h.digit?_eq
  cases hdigit

/-- A decimal digit announces no base. -/
theorem Shows.markedBase?_eq {g : Glyph} {d : Nat} (h : Shows g d) (hd : d < 10) :
    markedBase? g = none := by
  have hall : ∀ d < 10, markedBase? (.char d.digitChar) = none ∧
      markedBase? (.char d.digitChar.toUpper) = none := by decide
  rcases h with ⟨-, rfl | rfl⟩
  · exact (hall d hd).1
  · exact (hall d hd).2

theorem not_mem_of_shows {t : Text} {ds : List Nat} (h : List.Forall₂ Shows t ds) :
    Glyph.char '_' ∉ t := by
  induction h with
  | nil => exact List.not_mem_nil
  | cons hshows _ ih =>
    intro hmem
    rcases List.mem_cons.mp hmem with heq | hrest
    · exact hshows.ne_underscore heq.symm
    · exact ih hrest

/-- A row of glyphs shows one row of digits. -/
theorem digits_unique {t : Text} {ds es : List Nat} (hds : List.Forall₂ Shows t ds)
    (hes : List.Forall₂ Shows t es) : ds = es := by
  induction hds generalizing es with
  | nil =>
    cases hes
    rfl
  | @cons g d _ _ hshows _ ih =>
    cases hes with
    | @cons _ e _ _ hshows' hes =>
      have heq : d = e := Option.some.inj (hshows.digit?_eq.symm.trans hshows'.digit?_eq)
      rw [heq, ih hes]

/-- The next digit may be added to what stands before the row. -/
theorem ofDigits_carry (base value d : Nat) (ds : List Nat) :
    Nat.ofDigits base (ds.reverse ++ [value * base + d])
      = Nat.ofDigits base ((d :: ds).reverse ++ [value]) := by
  have hpair : Nat.ofDigits base [d, value] = value * base + d := by
    rw [Nat.ofDigits_cons, Nat.ofDigits_singleton, Nat.mul_comm, Nat.add_comm]
  rw [List.reverse_cons, List.append_assoc, List.singleton_append, Nat.ofDigits_append,
    Nat.ofDigits_append, Nat.ofDigits_singleton, hpair]

/-- What stands before a row of digits does not exceed the number of the whole. -/
theorem le_ofDigits_append {base : Nat} (hbase : 0 < base) (value : Nat) (ds : List Nat) :
    value ≤ Nat.ofDigits base (ds ++ [value]) := by
  rw [Nat.ofDigits_append, Nat.ofDigits_singleton]
  have hpow : 0 < base ^ ds.length := Nat.pow_pos hbase
  have hmul : value ≤ base ^ ds.length * value := Nat.le_mul_of_pos_left value hpow
  omega

/-- **The value of a row of digits.** A row is accumulated exactly if all its digits are below the base and
its number, with `value` before it, is within the limit. -/
theorem accumulate_eq_ok_iff {base limit : Nat} {t : Text} {ds : List Nat} (h : List.Forall₂ Shows t ds)
    {value : Nat} (hvalue : value ≤ limit) (v : Nat) :
    accumulate base limit value t = .ok v ↔
      (∀ d ∈ ds, d < base) ∧ v = Nat.ofDigits base (ds.reverse ++ [value]) ∧ v ≤ limit := by
  induction h generalizing value with
  | nil =>
    rw [accumulate, List.reverse_nil, List.nil_append, Nat.ofDigits_singleton]
    constructor
    · rintro ⟨⟩
      exact ⟨List.forall_mem_nil _, rfl, hvalue⟩
    · rintro ⟨-, rfl, -⟩
      rfl
  | @cons g d t ds hshows _ ih =>
    rw [accumulate, if_neg hshows.ne_underscore, hshows.digit?_eq]
    simp only [List.forall_mem_cons]
    by_cases hbase : base ≤ d
    · -- a digit that the base does not have
      rw [if_pos hbase]
      constructor
      · rintro ⟨⟩
      · rintro ⟨⟨hd, -⟩, -⟩
        exact absurd hbase (Nat.not_le.mpr hd)
    · rw [if_neg hbase]
      have hd : d < base := Nat.lt_of_not_le hbase
      by_cases hlimit : limit < value * base + d
      · -- later digits only raise the number further
        rw [if_pos hlimit]
        constructor
        · rintro ⟨⟩
        · rintro ⟨-, hv, hle⟩
          have hgrows := le_ofDigits_append (by omega : 0 < base) (value * base + d) ds.reverse
          rw [ofDigits_carry] at hgrows
          omega
      · rw [if_neg hlimit, ih (Nat.le_of_not_lt hlimit), ofDigits_carry]
        constructor
        · rintro ⟨hds, hv, hle⟩
          exact ⟨⟨hd, hds⟩, hv, hle⟩
        · rintro ⟨⟨-, hds⟩, hv, hle⟩
          exact ⟨hds, hv, hle⟩

/-- Whatever is accumulated, the limit is kept. -/
theorem accumulate_le {base limit value v : Nat} {t : Text} (hvalue : value ≤ limit)
    (h : accumulate base limit value t = .ok v) : v ≤ limit := by
  induction t generalizing value with
  | nil =>
    cases h
    exact hvalue
  | cons g t ih =>
    rw [accumulate] at h
    split at h
    · exact ih hvalue h
    · split at h
      · cases h
      · split at h
        · cases h
        · split at h
          · cases h
          · next hlimit => exact ih (Nat.le_of_not_lt hlimit) h

/-- What is read is within the limit. -/
theorem read_le {limit v : Nat} {token : Text} (h : read limit token = .ok v) : v ≤ limit := by
  unfold read at h
  split at h
  · cases h
  · dsimp only at h
    split at h
    · cases h
    · next value hvalue =>
      split at h
      · cases h
        exact accumulate_le (Nat.zero_le limit) hvalue
      · cases h

/-! ## The three kinds of token -/

/-- A token whose digits hold no underscore has the value of its digits. -/
theorem read_eq_ok_iff {limit base : Nat} {token digits body : Text} {marked : Bool} {ds : List Nat}
    (hne : token ≠ []) (hsplit : split token = (base, digits)) (hunmarked : unmarked token = (marked, body))
    (hbody : Glyph.char '_' ∉ body) (hds : List.Forall₂ Shows digits ds) (v : Nat) :
    read limit token = .ok v ↔
      (∀ d ∈ ds, d < base) ∧ v = Nat.ofDigits base ds.reverse ∧ v ≤ limit := by
  have hvalue : accumulate base limit 0 digits = .ok v ↔ _ :=
    accumulate_eq_ok_iff hds (Nat.zero_le limit) v
  rw [Nat.ofDigits_append_zero] at hvalue
  rw [← hvalue]
  unfold read
  simp only [List.isEmpty_iff, if_neg hne, hsplit, hunmarked, separatorsOk_of_not_mem hbody, if_true]
  cases accumulate base limit 0 digits <;> rfl

/-- Digits that spell a number in the base of the token are read as that number. -/
theorem read_of_spells {limit base n : Nat} {token digits body : Text} {marked : Bool} (hne : token ≠ [])
    (hsplit : split token = (base, digits)) (hunmarked : unmarked token = (marked, body))
    (hbody : Glyph.char '_' ∉ body) (h : Spells base digits n) (v : Nat) :
    read limit token = .ok v ↔ v = n ∧ n ≤ limit := by
  obtain ⟨-, ds, hds, hbase, rfl⟩ := h
  rw [read_eq_ok_iff hne hsplit hunmarked hbody hds]
  constructor
  · rintro ⟨-, rfl, hle⟩
    exact ⟨rfl, hle⟩
  · rintro ⟨rfl, hle⟩
    exact ⟨hbase, rfl, hle⟩

theorem Spells.underscore_not_mem {base n : Nat} {t : Text} (h : Spells base t n) : Glyph.char '_' ∉ t := by
  obtain ⟨-, ds, hds, -⟩ := h
  exact not_mem_of_shows hds

/-- **Base ten.** Decimal digits that do not start with `0` are read as the number they spell. -/
theorem read_of_head?_ne {limit n : Nat} {t : Text} (h : Spells 10 t n)
    (hhead : t.head? ≠ some (.char '0')) (v : Nat) : read limit t = .ok v ↔ v = n ∧ n ≤ limit := by
  obtain ⟨hsplit, hunmarked⟩ := split_of_head?_ne hhead
  exact read_of_spells h.1 hsplit hunmarked h.underscore_not_mem h v

/-- **A base mark.** The digits after `0` and a mark are read in the base that the mark announces. -/
theorem read_marked {limit base n : Nat} {mark : Glyph} {digits : Text} (hmark : markedBase? mark = some base)
    (h : Spells base digits n) (v : Nat) :
    read limit (.char '0' :: mark :: digits) = .ok v ↔ v = n ∧ n ≤ limit := by
  have hsplit : split (.char '0' :: mark :: digits) = (base, digits) := by
    cases digits with
    | nil => exact absurd rfl h.1
    | cons d rest => simp only [split, hmark]
  have hunmarked : unmarked (.char '0' :: mark :: digits) = (true, digits) := by
    simp [unmarked, hmark]
  exact read_of_spells (List.cons_ne_nil _ _) hsplit hunmarked h.underscore_not_mem h v

/-- Decimal digits after a leading `0` are the digits of a numeral in base eight. -/
theorem split_leading_zero {rest : Text} {ds : List Nat} (hds : List.Forall₂ Shows rest ds)
    (hten : ∀ d ∈ ds, d < 10) :
    split (.char '0' :: rest) = (8, rest)
      ∧ unmarked (.char '0' :: rest) = (false, .char '0' :: rest) := by
  cases hds with
  | nil => exact ⟨rfl, rfl⟩
  | @cons g d _ ds hshows hrest =>
    have hmark : markedBase? g = none := hshows.markedBase?_eq (hten d List.mem_cons_self)
    constructor
    · cases hrest with
      | nil => rfl
      | cons => simp only [split, hmark]
    · simp [unmarked, hmark]

/-- **Base eight.** A token of decimal digits with a leading `0` has the number that it spells in base eight,
if it spells one. -/
theorem read_leading_zero {limit n : Nat} {t : Text} (h : Spells 10 t n)
    (hhead : t.head? = some (.char '0')) (v : Nat) : read limit t = .ok v ↔ Spells 8 t v ∧ v ≤ limit := by
  obtain ⟨rest, rfl⟩ := List.head?_eq_some_iff.mp hhead
  have hsep := h.underscore_not_mem
  obtain ⟨hne, _, hall, hten, -⟩ := h
  cases hall with
  | @cons _ d₀ _ ds hzero hds =>
    have hvalue : d₀ = 0 := by
      have hdigit : digit? (.char '0') = some d₀ := hzero.digit?_eq
      cases hdigit
      rfl
    subst hvalue
    have hrest : ∀ d ∈ ds, d < 10 := fun d hd => hten d (List.mem_cons_of_mem 0 hd)
    obtain ⟨hsplit, hunmarked⟩ := split_leading_zero hds hrest
    rw [read_eq_ok_iff hne hsplit hunmarked hsep hds]
    constructor
    · rintro ⟨height, rfl, hle⟩
      refine ⟨⟨hne, 0 :: ds, .cons hzero hds, ?_, (Nat.ofDigits_reverse_zero_cons ds).symm⟩, hle⟩
      intro d hd
      rcases List.mem_cons.mp hd with rfl | hd
      · decide
      · exact height d hd
    · rintro ⟨⟨-, es, hes, height, rfl⟩, hle⟩
      -- a glyph shows one digit only
      obtain rfl : es = 0 :: ds := digits_unique hes (.cons hzero hds)
      rw [Nat.ofDigits_reverse_zero_cons] at hle ⊢
      exact ⟨fun d hd => height d (List.mem_cons_of_mem 0 hd), rfl, hle⟩

/-! ## Decimal digits read in base eight -/

/-- A row of decimal digits with a leading `0` whose number in base eight takes the place of its own: from
eight on the two differ, and one of them is a byte. -/
def Misread (t : Text) (n : Nat) : Prop :=
  t.head? = some (.char '0') ∧ 8 ≤ n ∧ (n ≤ 255 ∨ ∃ m ≤ 255, Spells 8 t m)

/-- Below eight the two bases agree. -/
theorem ofDigits_eight_of_lt {ds : List Nat} (h : Nat.ofDigits 10 ds < 8) :
    Nat.ofDigits 8 ds = Nat.ofDigits 10 ds ∧ ∀ d ∈ ds, d < 8 := by
  induction ds with
  | nil => exact ⟨rfl, List.forall_mem_nil _⟩
  | cons d ds ih =>
    rw [Nat.ofDigits_cons] at h
    -- all digits but the lowest are zeros
    have hzero : Nat.ofDigits 10 ds = 0 := by omega
    obtain ⟨heq, hds⟩ := ih (by omega)
    rw [Nat.ofDigits_cons, Nat.ofDigits_cons, heq, hzero]
    refine ⟨rfl, ?_⟩
    intro e he
    rcases List.mem_cons.mp he with rfl | he
    · omega
    · exact hds e he

/-- From eight on the number in base eight is the smaller one. -/
theorem ofDigits_eight_lt {ds : List Nat} (hds : ∀ d ∈ ds, d < 8) (h : 8 ≤ Nat.ofDigits 10 ds) :
    Nat.ofDigits 8 ds < Nat.ofDigits 10 ds := by
  cases ds with
  | nil => cases h
  | cons d ds =>
    have hd : d < 8 := hds d List.mem_cons_self
    have hmono : Nat.ofDigits 8 ds ≤ Nat.ofDigits 10 ds := Nat.ofDigits_monotone ds (by decide)
    rw [Nat.ofDigits_cons] at h ⊢
    rw [Nat.ofDigits_cons]
    omega

theorem Spells.eight_of_lt {t : Text} {n : Nat} (h : Spells 10 t n) (hn : n < 8) : Spells 8 t n := by
  obtain ⟨hne, ds, hds, -, rfl⟩ := h
  obtain ⟨heq, height⟩ := ofDigits_eight_of_lt hn
  refine ⟨hne, ds, hds, ?_, heq.symm⟩
  intro d hd
  exact height d (List.mem_reverse.mpr hd)

theorem Spells.lt_of_eight {t : Text} {n m : Nat} (h : Spells 10 t n) (hm : Spells 8 t m) (hn : 8 ≤ n) :
    m < n := by
  obtain ⟨-, ds, hds, -, rfl⟩ := h
  obtain ⟨-, es, hes, height, rfl⟩ := hm
  obtain rfl : ds = es := digits_unique hds hes
  refine ofDigits_eight_lt ?_ hn
  intro d hd
  exact height d (List.mem_reverse.mp hd)

/-- A text spells one number in a base. -/
theorem Spells.unique {base : Nat} {t : Text} {n m : Nat} (h : Spells base t n) (hm : Spells base t m) :
    n = m := by
  obtain ⟨-, ds, hds, -, rfl⟩ := h
  obtain ⟨-, es, hes, -, rfl⟩ := hm
  rw [digits_unique hds hes]

/-- **When base eight does no harm.** With a leading `0`, what is read is the decimal number exactly if the
token is not misread. -/
theorem forall_spells_eight_iff {t : Text} {n : Nat} (h : Spells 10 t n)
    (hhead : t.head? = some (.char '0')) :
    (∀ v, Spells 8 t v ∧ v ≤ 255 ↔ v = n ∧ n ≤ 255) ↔ ¬ Misread t n := by
  constructor
  · rintro hsame ⟨-, hn, hbyte⟩
    -- the number is a byte, hence the one in base eight, which is smaller
    have hle : n ≤ 255 := by
      rcases hbyte with hle | ⟨m, hm, hspells⟩
      · exact hle
      · exact ((hsame m).mp ⟨hspells, hm⟩).2
    have hspells : Spells 8 t n := ((hsame n).mpr ⟨rfl, hle⟩).1
    exact absurd (h.lt_of_eight hspells hn) (Nat.lt_irrefl n)
  · intro hright v
    by_cases hn : n < 8
    · have hspells := h.eight_of_lt hn
      constructor
      · rintro ⟨hv, -⟩
        exact ⟨hv.unique hspells, by omega⟩
      · rintro ⟨rfl, hle⟩
        exact ⟨hspells, hle⟩
    · -- neither number is a byte
      have hlarge : ¬ (n ≤ 255 ∨ ∃ m ≤ 255, Spells 8 t m) := by
        intro hbyte
        exact hright ⟨hhead, Nat.le_of_not_lt hn, hbyte⟩
      constructor
      · rintro ⟨hv, hle⟩
        exact absurd (.inr ⟨v, hle, hv⟩) hlarge
      · rintro ⟨-, hle⟩
        exact absurd (.inl hle) hlarge

end Numeral

namespace Assembly

/-! ## One operand of a line -/

/-- A line that is well formed but for one operand: its mnemonic is known, there are as many operands as it
takes, and every operand before and after `token` is read. -/
structure Slot where
  line : Text
  mnemonic : Text
  op : Opcode
  before : List Text
  token : Text
  after : List Text
  left : List UInt8
  right : List UInt8
  fields_eq : (uncommented line).fields = mnemonic :: (before ++ token :: after)
  opcode_eq : opcode? mnemonic = some op
  count_eq : (before ++ token :: after).length = op.operandCount
  left_read : List.Forall₂ (fun t b => operand t = .ok b) before left
  right_read : List.Forall₂ (fun t b => operand t = .ok b) after right

/-- Operands that are read one by one are read together. -/
theorem mapM_operand {tokens : List Text} {bytes : List UInt8}
    (h : List.Forall₂ (fun t b => operand t = .ok b) tokens bytes) : tokens.mapM operand = .ok bytes := by
  induction h with
  | nil => rfl
  | cons hread _ ih =>
    rw [List.mapM_cons, hread, ih]
    rfl

/-- As many bytes as the opcode takes are the operands of its instruction. -/
theorem operands_ofPayload {op : Opcode} {bytes : List UInt8} (h : bytes.length = op.operandCount) :
    (Instruction.ofPayload op (Payload.ofList bytes)).operands = bytes := by
  cases op with
  | clear => exact (List.eq_nil_of_length_eq_zero h).symm
  | pixel =>
    match bytes, h with
    | [_, _, _, _], _ => rfl
  | delay =>
    match bytes, h with
    | [_], _ => rfl
  | all =>
    match bytes, h with
    | [_, _, _], _ => rfl

namespace Slot

variable (slot : Slot) {n : Nat}

/-- The line is assembled to its opcode with `n` in the operand's place and the others as they are. -/
def Stores (n : Nat) : Prop :=
  ∃ i, assembleLine slot.line = .ok (some i) ∧ i.opcode = slot.op ∧
    i.operands = slot.left ++ UInt8.ofNat n :: slot.right

/-- The line is rejected on account of the operand. -/
def Rejected : Prop := ∃ flaw, assembleLine slot.line = .error (.badOperand slot.token flaw)

/-- The operand is taken for `n`: it is stored if it is a byte, and the line is rejected if not. -/
structure TakenFor (n : Nat) : Prop where
  stored : n ≤ 255 → slot.Stores n
  rejected : 255 < n → slot.Rejected

/-- The operand decides what the line is assembled to. -/
theorem assembleLine_eq : assembleLine slot.line = (operand slot.token).map fun b =>
    some (Instruction.ofPayload slot.op (Payload.ofList (slot.left ++ b :: slot.right))) := by
  unfold assembleLine
  rw [slot.fields_eq]
  simp only [slot.opcode_eq, slot.count_eq, ne_eq, not_true_eq_false, if_false]
  rw [List.mapM_append, mapM_operand slot.left_read, List.mapM_cons, mapM_operand slot.right_read]
  cases operand slot.token <;> rfl

theorem length_operands (b : UInt8) :
    (slot.left ++ b :: slot.right).length = slot.op.operandCount := by
  rw [← slot.count_eq, List.length_append, List.length_append, List.length_cons, List.length_cons,
    slot.left_read.length_eq, slot.right_read.length_eq]

/-- A byte is stored exactly if it is what the operand reads as. -/
theorem stores_iff (hn : n ≤ 255) : slot.Stores n ↔ Numeral.read 255 slot.token = .ok n := by
  unfold Stores
  rw [slot.assembleLine_eq, operand]
  cases hread : Numeral.read 255 slot.token with
  | error flaw =>
    constructor
    · rintro ⟨i, ⟨⟩, -⟩
    · rintro ⟨⟩
  | ok value =>
    constructor
    · rintro ⟨i, ⟨⟩, -, hoperands⟩
      rw [operands_ofPayload (slot.length_operands _), List.append_cancel_left_eq] at hoperands
      have hbyte : UInt8.ofNat value = UInt8.ofNat n := (List.cons.inj hoperands).1
      have hle : value ≤ 255 := Numeral.read_le hread
      have hvalue : value = n := by
        have := congrArg UInt8.toNat hbyte
        simp only [UInt8.toNat_ofNat'] at this
        omega
      rw [hvalue]
    · rintro ⟨⟩
      exact ⟨_, rfl, Instruction.opcode_ofPayload _ _, operands_ofPayload (slot.length_operands _)⟩

/-- The line is rejected on account of the operand exactly if the operand is not read. -/
theorem rejected_iff : slot.Rejected ↔ ∀ v, Numeral.read 255 slot.token ≠ .ok v := by
  unfold Rejected
  rw [slot.assembleLine_eq, operand]
  cases Numeral.read 255 slot.token with
  | error flaw =>
    constructor
    · intro _ v hv
      cases hv
    · intro _
      exact ⟨flaw, rfl⟩
  | ok value =>
    constructor
    · rintro ⟨flaw, ⟨⟩⟩
    · intro h
      exact absurd rfl (h value)

/-- What an operand is taken for is what it reads as, within a byte. -/
theorem takenFor_iff :
    slot.TakenFor n ↔ ∀ v, Numeral.read 255 slot.token = .ok v ↔ v = n ∧ n ≤ 255 := by
  constructor
  · intro h v
    by_cases hn : n ≤ 255
    · rw [(slot.stores_iff hn).mp (h.stored hn)]
      constructor
      · rintro ⟨⟩
        exact ⟨rfl, hn⟩
      · rintro ⟨rfl, -⟩
        rfl
    · have hrejected := slot.rejected_iff.mp (h.rejected (Nat.lt_of_not_le hn)) v
      exact ⟨fun hread => absurd hread hrejected, fun hv => absurd hv.2 hn⟩
  · intro h
    constructor
    · intro hn
      exact (slot.stores_iff hn).mpr ((h n).mpr ⟨rfl, hn⟩)
    · intro hn
      refine slot.rejected_iff.mpr ?_
      intro v hread
      have := ((h v).mp hread).2
      omega

/-- With a leading `0`, an operand is taken for its number in base eight. -/
theorem takenFor_of_leading_zero {m : Nat} (h : Numeral.Spells 10 slot.token n)
    (hhead : slot.token.head? = some (.char '0')) (hm : Numeral.Spells 8 slot.token m) :
    slot.TakenFor m := by
  rw [takenFor_iff]
  intro v
  rw [Numeral.read_leading_zero h hhead]
  constructor
  · rintro ⟨hv, hle⟩
    obtain rfl := hv.unique hm
    exact ⟨rfl, hle⟩
  · rintro ⟨rfl, hle⟩
    exact ⟨hm, hle⟩

/-- With a leading `0`, an operand that has no number in base eight is rejected. -/
theorem rejected_of_leading_zero (h : Numeral.Spells 10 slot.token n)
    (hhead : slot.token.head? = some (.char '0')) (hnone : ∀ m, ¬ Numeral.Spells 8 slot.token m) :
    slot.Rejected := by
  refine slot.rejected_iff.mpr ?_
  intro v hv
  exact hnone v ((Numeral.read_leading_zero h hhead v).mp hv).1

end Slot

open Numeral in
/-- **What an operand is taken for.** Digits after `0x` are taken for their number in base sixteen. A row of
decimal digits is taken for its number unless it is misread, which takes a leading `0`: such a row is taken
for its number in base eight, and rejected if a digit is too large for that base. -/
theorem operand_taken_iff_not_misread (slot : Slot) :
    (∀ digits n, slot.token = .char '0' :: .char 'x' :: digits → Spells 16 digits n → slot.TakenFor n)
      ∧ ∀ n, Spells 10 slot.token n →
        (slot.TakenFor n ↔ ¬ Misread slot.token n)
          ∧ (slot.token.head? = some (.char '0') →
            (∀ m, Spells 8 slot.token m → slot.TakenFor m)
              ∧ ((∀ m, ¬ Spells 8 slot.token m) → slot.Rejected)) := by
  constructor
  · intro digits n htoken hspells
    rw [slot.takenFor_iff, htoken]
    exact read_marked rfl hspells
  · intro n hspells
    by_cases hhead : slot.token.head? = some (.char '0')
    · refine ⟨?_, fun _ => ⟨?_, ?_⟩⟩
      · simp only [slot.takenFor_iff, read_leading_zero hspells hhead]
        exact forall_spells_eight_iff hspells hhead
      · intro m hm
        exact slot.takenFor_of_leading_zero hspells hhead hm
      · intro hnone
        exact slot.rejected_of_leading_zero hspells hhead hnone
    · refine ⟨?_, fun h => absurd h hhead⟩
      have htaken : slot.TakenFor n := slot.takenFor_iff.mpr (read_of_head?_ne hspells hhead)
      have hright : ¬ Misread slot.token n := fun h => hhead h.1
      exact ⟨fun _ => hright, fun _ => htaken⟩

/-- A pixel whose second operand is in hexadecimal, with a letter in each case. -/
def hexadecimalSlot : Slot where
  line := Text.ofString "Pixel 007 0xfF 9 0b11 # 256"
  mnemonic := Text.ofString "Pixel"
  op := .pixel
  before := [Text.ofString "007"]
  token := Text.ofString "0xfF"
  after := [Text.ofString "9", Text.ofString "0b11"]
  left := [7]
  right := [9, 3]
  fields_eq := by decide +kernel
  opcode_eq := by decide +kernel
  count_eq := rfl
  left_read := .cons rfl .nil
  right_read := .cons rfl (.cons rfl .nil)

/-- The line that delays by a token. -/
def delaySlot (token : Text)
    (h : (uncommented (Text.ofString "delay " ++ token)).fields = [Text.ofString "delay", token]) : Slot where
  line := Text.ofString "delay " ++ token
  mnemonic := Text.ofString "delay"
  op := .delay
  before := []
  token := token
  after := []
  left := []
  right := []
  fields_eq := h
  opcode_eq := by decide +kernel
  count_eq := rfl
  left_read := .nil
  right_read := .nil

/-- A delay whose number of ticks is no byte in base ten and is one in base eight. -/
def paddedSlot : Slot := delaySlot (Text.ofString "0300") (by decide +kernel)

open Numeral in
theorem operand_taken_in_each_base :
    hexadecimalSlot.Stores 255 ∧ paddedSlot.Stores 192 ∧ ¬ paddedSlot.TakenFor 300 := by
  have hsixteen : Spells 16 (Text.ofString "fF") 255 :=
    ⟨by decide, [15, 15], .cons (by decide) (.cons (by decide) .nil), by decide, rfl⟩
  have hdigits : List.Forall₂ Numeral.Shows (Text.ofString "0300") [0, 3, 0, 0] :=
    .cons (by decide) (.cons (by decide) (.cons (by decide) (.cons (by decide) .nil)))
  have hten : Spells 10 paddedSlot.token 300 := ⟨by decide, _, hdigits, by decide, rfl⟩
  have height : Spells 8 paddedSlot.token 192 := ⟨by decide, _, hdigits, by decide, rfl⟩
  obtain ⟨hiff, hzero⟩ := (operand_taken_iff_not_misread paddedSlot).2 300 hten
  refine ⟨?_, ?_, ?_⟩
  · exact ((operand_taken_iff_not_misread hexadecimalSlot).1 _ 255 rfl hsixteen).stored (by decide)
  · exact ((hzero rfl).1 192 height).stored (by decide)
  · intro htaken
    exact hiff.mp htaken ⟨rfl, by decide, .inr ⟨192, by decide, height⟩⟩

/-- A delay of ten ticks, written with three digits. -/
def paddedTen : Slot := delaySlot (Text.ofString "010") (by decide +kernel)

/-- A leading `0` stores a different byte: ten ticks become eight. -/
theorem operand_changed_by_leading_zero :
    Numeral.Spells 10 paddedTen.token 10 ∧ ¬ paddedTen.TakenFor 10
      ∧ assembleLine paddedTen.line = .ok (some (.delay 8)) := by
  refine ⟨⟨by decide, [0, 1, 0], ?_, by decide, rfl⟩, ?_, ?_⟩
  · exact .cons (by decide) (.cons (by decide) (.cons (by decide) .nil))
  · intro htaken
    have hread := (paddedTen.stores_iff (by decide)).mp (htaken.stored (by decide))
    exact absurd hread (by decide)
  · exact paddedTen.assembleLine_eq

end Assembly

end StripSequencer
