import Mathlib.Tactic.Ring
import StripSequencer.Cbor.Reader

/-!
# `StripSequencer.Proofs.CborReading` — what was written is read back

The writer uses the shortest head for each number and definite lengths. The reader accepts much more; on
what the writer wrote it gives the items back, whatever follows them.

## Contents
- `bigEndianValue_bigEndian`, `readHead_headBytes`: numbers and heads, at every width.
- `Item.Plain`, `readItem_encode`: integers, strings and simple values.
- `readItems_encodeAll`, `decode_encode_map`: lists of plain items, and maps of them.
- `Item.weight`, `weight_le_of_decode`: an item holds no more than the bytes that it is decoded from.
-/

namespace StripSequencer.Cbor

/-! ## Numbers -/

@[simp] theorem length_bigEndian (width n : Nat) : (bigEndian width n).length = width := by
  induction width with
  | zero => rfl
  | succ width ih => simp [bigEndian, ih]

/-- Reading bytes in order keeps the number that was read before them as the higher part. -/
theorem foldl_bigEndian (width n high : Nat) :
    (bigEndian width n).foldl (fun n b => n * 256 + b.toNat) high
      = high * 256 ^ width + n % 256 ^ width := by
  induction width generalizing high with
  | zero => simp [bigEndian, Nat.mod_one]
  | succ width ih =>
    -- the first byte is the highest digit to the base 256
    have hshift : n >>> (8 * width) = n / 256 ^ width := by
      rw [Nat.shiftRight_eq_div_pow, Nat.pow_mul]
    have hbyte : (UInt8.ofNat (n >>> (8 * width))).toNat = n / 256 ^ width % 256 := by
      rw [hshift, UInt8.toNat_ofNat']
    rw [bigEndian, List.foldl_cons, ih, hbyte, Nat.mod_pow_succ]
    ring

theorem bigEndianValue_bigEndian {width n : Nat} (h : n < 256 ^ width) :
    bigEndianValue (bigEndian width n) = n := by
  unfold bigEndianValue
  rw [foldl_bigEndian, Nat.zero_mul, Nat.zero_add, Nat.mod_eq_of_lt h]

theorem splitBytes_append {front : List UInt8} {n : Nat} (h : front.length = n) (rest : List UInt8) :
    splitBytes n (front ++ rest) = .ok (front, rest) := by
  subst h
  have hle : ¬ (front ++ rest).length < front.length := by simp
  unfold splitBytes
  rw [if_neg hle, List.splitAt_eq, List.take_left, List.drop_left]

/-! ## Heads -/

theorem toNat_headByte (major : Major) {info : Nat} (h : info < 32) :
    (headByte major info).toNat = major.code * 32 + info := by
  have hlt : major.code * 32 + info < 256 := by
    have hcode : major.code ≤ 7 := by cases major <;> decide
    omega
  unfold headByte
  rw [UInt8.toNat_ofNat', Nat.mod_eq_of_lt hlt]

@[simp] theorem ofByte_headByte (major : Major) {info : Nat} (h : info < 32) :
    Major.ofByte (headByte major info) = major := by
  have hdiv : (major.code * 32 + info) / 32 = major.code := by omega
  unfold Major.ofByte
  rw [toNat_headByte major h, hdiv]
  cases major <;> rfl

theorem headByte_mod (major : Major) {info : Nat} (h : info < 32) :
    (headByte major info).toNat % 32 = info := by
  rw [toNat_headByte major h]
  omega

/-- The lower bits of the first byte of a written head: the number itself, or the width that it takes. -/
def headInfo (n : Nat) : Nat :=
  if n < 24 then n
  else if n < UInt8.size then 24
  else if n < UInt16.size then 25
  else if n < UInt32.size then 26
  else 27

theorem headInfo_lt (n : Nat) : headInfo n < 28 := by
  unfold headInfo
  split
  · omega
  · split
    · decide
    · split
      · decide
      · split <;> decide

theorem readWide_bigEndian (major : Major) (info : Nat) {width n : Nat} (h : n < 256 ^ width)
    (rest : List UInt8) :
    readWide major info width (bigEndian width n ++ rest) = .ok (⟨major, info, n⟩, rest) := by
  unfold readWide
  rw [splitBytes_append (length_bigEndian width n)]
  simp [bind, Except.bind, pure, Except.pure, bigEndianValue_bigEndian h]

/-- **A written head is read back.** Heads of the last major type are read back if their number is in the
first byte; after it, small numbers are refused. -/
theorem readHead_headBytes {major : Major} {n : Nat} (hn : n < UInt64.size)
    (hmajor : major ≠ .other ∨ n < 24) (rest : List UInt8) :
    readHead (headBytes major n ++ rest) = .ok (⟨major, headInfo n, n⟩, rest) := by
  unfold headBytes headInfo
  by_cases h24 : n < 24
  · have h32 : n < 32 := by omega
    simp [readHead, headByte_mod, h32, h24]
  · -- the number follows the first byte, so only the other major types are left
    have hne : major ≠ .other := hmajor.resolve_right h24
    by_cases h8 : n < UInt8.size
    · have hwide := @readWide_bigEndian major 24 1 n h8 rest
      simp [readHead, headByte_mod, h24, h8, hwide, hne, bind, Except.bind]
    · by_cases h16 : n < UInt16.size
      · have hwide := @readWide_bigEndian major 25 2 n h16 rest
        simp [readHead, headByte_mod, h24, h8, h16, hwide]
      · by_cases h32 : n < UInt32.size
        · have hwide := @readWide_bigEndian major 26 4 n h32 rest
          simp [readHead, headByte_mod, h24, h8, h16, h32, hwide]
        · have hwide := @readWide_bigEndian major 27 8 n hn rest
          simp [readHead, headByte_mod, h24, h8, h16, h32, hwide]

/-! ## Items without parts -/

/-- The items without parts that the writer spells as they are: numbers of 64 bits, strings of one chunk
whose length is a signed number of 64 bits, and simple values of one byte. -/
inductive Item.Plain : Item → Prop where
  | unsigned {n : Nat} (h : n < UInt64.size) : Plain (.unsigned n)
  | negative {n : Nat} (h : n < UInt64.size) : Plain (.negative n)
  | bytes {chunk : List UInt8} (h : chunk.length < UInt64.size / 2) : Plain (.bytes [chunk])
  | text {chunk : List UInt8} (h : chunk.length < UInt64.size / 2) : Plain (.text [chunk])
  | simple {n : Nat} (h : n < 24) : Plain (.simple n)

/-- A string of one chunk is read back after its head. -/
theorem readString_append (fuel : Nat) {major : Major} {chunk : List UInt8}
    (h : chunk.length < UInt64.size / 2) (rest : List UInt8) :
    readString fuel ⟨major, headInfo chunk.length, chunk.length⟩ (chunk ++ rest) = .ok ([chunk], rest) := by
  have hinfo : headInfo chunk.length ≠ 31 := by
    have hlt := headInfo_lt chunk.length
    omega
  simp [readString, Head.isIndefinite, hinfo, checkLength, Nat.not_le.mpr h, splitBytes_append,
    bind, Except.bind, pure, Except.pure]

/-- **A plain item is read back,** at any depth and whatever follows. -/
theorem readItem_encode {item : Item} (h : item.Plain) (fuel depth : Nat) (inTag : Bool)
    (rest : List UInt8) : readItem (fuel + 1) depth inTag (item.encode ++ rest) = .ok (item, rest) := by
  rw [readItem]
  cases h with
  | @unsigned n hn =>
    have hhead := @readHead_headBytes .unsigned n hn (.inl (by decide)) rest
    simp [Item.encode, hhead, bind, Except.bind, pure, Except.pure]
  | @negative n hn =>
    have hhead := @readHead_headBytes .negative n hn (.inl (by decide)) rest
    simp [Item.encode, hhead, bind, Except.bind, pure, Except.pure]
  | @bytes chunk hlen =>
    have hn : chunk.length < UInt64.size := Nat.lt_of_lt_of_le hlen (Nat.div_le_self _ _)
    have hhead := @readHead_headBytes .bytes chunk.length hn (.inl (by decide)) (chunk ++ rest)
    simp [Item.encode, hhead, readString_append fuel hlen, bind, Except.bind, pure, Except.pure]
  | @text chunk hlen =>
    have hn : chunk.length < UInt64.size := Nat.lt_of_lt_of_le hlen (Nat.div_le_self _ _)
    have hhead := @readHead_headBytes .text chunk.length hn (.inl (by decide)) (chunk ++ rest)
    simp [Item.encode, hhead, readString_append fuel hlen, bind, Except.bind, pure, Except.pure]
  | @simple n hn =>
    have hlt : n < UInt64.size := Nat.lt_trans hn (by decide)
    have hhead := @readHead_headBytes .other n hlt (.inr hn) rest
    -- the number stands in the first byte, where the widths of floats would be larger
    have hinfo : headInfo n = n := if_pos hn
    have hother : Item.ofOther ⟨.other, n, n⟩ = .simple n := by
      simp [Item.ofOther, show n ≠ 25 by omega, show n ≠ 26 by omega, show n ≠ 27 by omega]
    simp [Item.encode, hhead, hinfo, hother, bind, Except.bind, pure, Except.pure]

/-! ## Maps -/

/-- Plain items one after the other are read back in order. -/
theorem readItems_encodeAll {items : List Item} (h : ∀ item ∈ items, item.Plain) {fuel : Nat}
    (hfuel : items.length < fuel) (depth : Nat) (seen : List Item) (rest : List UInt8) :
    readItems fuel depth items.length seen (encodeAll items ++ rest)
      = .ok (seen.reverse ++ items, rest) := by
  induction items generalizing fuel seen with
  | nil =>
    obtain ⟨fuel, rfl⟩ := Nat.exists_eq_succ_of_ne_zero (Nat.ne_of_gt hfuel)
    simp [readItems, encodeAll]
  | cons item items ih =>
    obtain ⟨hitem, hitems⟩ := List.forall_mem_cons.mp h
    -- one unit of fuel for the list and one for the item
    obtain ⟨fuel, rfl⟩ : ∃ k, fuel = k + 2 := ⟨fuel - 2, by simp at hfuel; omega⟩
    have hroom : items.length < fuel + 1 := by simpa using hfuel
    have hread := readItem_encode hitem fuel depth false (encodeAll items ++ rest)
    simp [readItems, encodeAll, hread, ih hitems hroom, bind, Except.bind]

theorem length_headBytes_pos (major : Major) (n : Nat) : 0 < (headBytes major n).length := by
  unfold headBytes
  split
  · exact Nat.one_pos
  · split
    · exact Nat.succ_pos _
    · split
      · exact Nat.succ_pos _
      · split <;> exact Nat.succ_pos _

theorem Item.length_encode_pos (item : Item) : 0 < item.encode.length := by
  cases item <;> simp [Item.encode, length_headBytes_pos]

theorem length_le_length_encodeAll (items : List Item) : items.length ≤ (encodeAll items).length := by
  induction items with
  | nil => exact Nat.zero_le _
  | cons item items ih =>
    have hpos := item.length_encode_pos
    simp only [encodeAll, List.length_append, List.length_cons]
    omega

/-- A map of plain items is read back where another level of nesting is allowed, whatever follows. -/
theorem readItem_encode_map {entries : List Item} {count : Nat} (h : ∀ item ∈ entries, item.Plain)
    (hlength : entries.length = 2 * count) (hcount : count ≤ maxCount) {fuel depth : Nat}
    (hfuel : entries.length < fuel) (hdepth : depth < maxDepth) (inTag : Bool) (rest : List UInt8) :
    readItem (fuel + 1) depth inTag ((Item.map entries).encode ++ rest) = .ok (.map entries, rest) := by
  have hhalf : entries.length / 2 = count := by omega
  have hn : count < UInt64.size := Nat.lt_of_le_of_lt hcount (by decide)
  have hhead := @readHead_headBytes .map count hn (.inl (by decide)) (encodeAll entries ++ rest)
  have hdefinite : headInfo count ≠ 31 := by
    have hlt := headInfo_lt count
    omega
  have hread := readItems_encodeAll h hfuel (depth + 1) [] rest
  rw [hlength] at hread
  rw [readItem, Item.encode, hhalf, List.append_assoc, hhead]
  simp [Nat.not_le.mpr hdepth, Head.isIndefinite, hdefinite, checkCount, Nat.not_lt.mpr hcount, hread,
    bind, Except.bind, pure, Except.pure]

/-- **A map of plain items is decoded from the bytes that spell it.** -/
theorem decode_encode_map {entries : List Item} {count : Nat} (h : ∀ item ∈ entries, item.Plain)
    (hlength : entries.length = 2 * count) (hcount : count ≤ maxCount) :
    decode (Item.map entries).encode = .ok (.map entries) := by
  have hne : (Item.map entries).encode ≠ [] := List.ne_nil_of_length_pos (Item.length_encode_pos _)
  -- every item takes a byte, so the bound on the depth of the calls exceeds the number of items
  have hfuel : entries.length < 2 * (Item.map entries).encode.length + 1 := by
    have hle := length_le_length_encodeAll entries
    rw [Item.encode, List.length_append]
    omega
  have hdepth : 0 < maxDepth := by decide
  have hread := readItem_encode_map h hlength hcount hfuel hdepth false []
  rw [List.append_nil] at hread
  simp [decode, hne, hread, bind, Except.bind, pure, Except.pure]

/-! ## Weights -/

mutual

/-- The number of bytes that an item takes at least: one for its head and all those of its strings. -/
def Item.weight : Item → Nat
  | .bytes chunks | .text chunks => chunks.flatten.length + 1
  | .array items | .map items => weightAll items + 1
  | .tag _ content => content.weight + 1
  | _ => 1

/-- The weight of items together. -/
def weightAll : List Item → Nat
  | [] => 0
  | item :: items => item.weight + weightAll items

end

theorem Item.weight_pos (item : Item) : 0 < item.weight := by
  cases item <;> simp [Item.weight]

theorem weight_ofOther (head : Head) : (Item.ofOther head).weight = 1 := by
  unfold Item.ofOther
  split
  · rfl
  · split
    · rfl
    · split <;> rfl

theorem weightAll_append (front back : List Item) :
    weightAll (front ++ back) = weightAll front + weightAll back := by
  induction front with
  | nil => simp [weightAll]
  | cons item front ih => simp [weightAll, ih, Nat.add_assoc]

@[simp] theorem weightAll_reverse (items : List Item) : weightAll items.reverse = weightAll items := by
  induction items with
  | nil => rfl
  | cons item items ih => simp [weightAll, weightAll_append, ih, Nat.add_comm]

theorem length_le_weightAll (items : List Item) : items.length ≤ weightAll items := by
  induction items with
  | nil => exact Nat.le_refl 0
  | cons item items ih =>
    have hpos := item.weight_pos
    simp only [weightAll, List.length_cons]
    omega

/-- A computation that stops at the first error gives a result if each of its two parts does. -/
theorem bind_eq_ok {ε α β : Type} {x : Except ε α} {f : α → Except ε β} {b : β} :
    x >>= f = .ok b ↔ ∃ a, x = .ok a ∧ f a = .ok b := by
  cases x <;> simp [bind, Except.bind]

theorem map_eq_ok {ε α β : Type} {x : Except ε α} {f : α → β} {b : β} :
    x.map f = .ok b ↔ ∃ a, x = .ok a ∧ f a = b := by
  cases x <;> simp [Except.map]

theorem splitBytes_eq_ok {n : Nat} {data front rest : List UInt8}
    (h : splitBytes n data = .ok (front, rest)) : front.length = n ∧ front ++ rest = data := by
  unfold splitBytes at h
  split at h
  · cases h
  · rename_i hle
    obtain ⟨rfl, rfl⟩ : data.take n = front ∧ data.drop n = rest := by simpa [List.splitAt_eq] using h
    exact ⟨List.length_take_of_le (Nat.not_lt.mp hle), List.take_append_drop n data⟩

theorem readWide_shortens {major : Major} {info width : Nat} {data rest : List UInt8} {head : Head}
    (h : readWide major info width data = .ok (head, rest)) : rest.length ≤ data.length := by
  obtain ⟨⟨number, tail⟩, hsplit, heq⟩ := bind_eq_ok.mp h
  obtain ⟨-, rfl⟩ : _ ∧ tail = rest := by simpa [pure, Except.pure] using heq
  obtain ⟨-, rfl⟩ := splitBytes_eq_ok hsplit
  simp

/-- A head takes at least a byte. -/
theorem readHead_shortens {data rest : List UInt8} {head : Head}
    (h : readHead data = .ok (head, rest)) : rest.length < data.length := by
  cases data with
  | nil => simp [readHead] at h
  | cons b data =>
    rw [List.length_cons, Nat.lt_succ_iff]
    simp only [readHead] at h
    split at h
    · simp at h
      simp [h.2]
    · split at h
      · obtain ⟨⟨wide, tail⟩, hwide, heq⟩ := bind_eq_ok.mp h
        split at heq
        · cases heq
        · obtain ⟨-, rfl⟩ : _ ∧ tail = rest := by simpa using heq
          exact readWide_shortens hwide
      · split at h
        · exact readWide_shortens h
        · split at h
          · exact readWide_shortens h
          · split at h
            · exact readWide_shortens h
            · split at h
              · simp at h
                simp [h.2]
              · cases h

theorem readChunks_length {major : Major} {fuel : Nat} {seen chunks : List (List UInt8)}
    {data rest : List UInt8} (h : readChunks major fuel seen data = .ok (chunks, rest)) :
    chunks.flatten.length + rest.length ≤ seen.flatten.length + data.length := by
  induction fuel generalizing seen data with
  | zero => simp [readChunks] at h
  | succ fuel ih =>
    cases data with
    | nil => simp [readChunks] at h
    | cons b data =>
      simp only [readChunks] at h
      split at h
      · obtain ⟨rfl, rfl⟩ : seen.reverse = chunks ∧ data = rest := by simpa using h
        simp only [List.length_flatten, List.map_reverse, List.sum_reverse, List.length_cons]
        omega
      · split at h
        · cases h
        · obtain ⟨⟨head, afterHead⟩, hhead, h⟩ := bind_eq_ok.mp h
          obtain ⟨length, -, h⟩ := bind_eq_ok.mp h
          obtain ⟨⟨chunk, afterChunk⟩, hsplit, hrest⟩ := bind_eq_ok.mp h
          have hshort := readHead_shortens hhead
          obtain ⟨-, rfl⟩ := splitBytes_eq_ok hsplit
          have hrec := ih hrest
          simp only [List.flatten_cons, List.length_append] at hrec hshort
          omega

theorem readString_length {fuel : Nat} {head : Head} {data rest : List UInt8}
    {chunks : List (List UInt8)} (h : readString fuel head data = .ok (chunks, rest)) :
    chunks.flatten.length + rest.length ≤ data.length := by
  unfold readString at h
  split at h
  · simpa using readChunks_length h
  · obtain ⟨length, -, h⟩ := bind_eq_ok.mp h
    obtain ⟨⟨chunk, tail⟩, hsplit, h⟩ := bind_eq_ok.mp h
    obtain ⟨rfl, rfl⟩ : [chunk] = chunks ∧ tail = rest := by simpa [pure, Except.pure] using h
    obtain ⟨-, rfl⟩ := splitBytes_eq_ok hsplit
    simp

/-- What the three readers give weighs no more than the bytes that they take, with `fuel` as the bound on
the depth of their calls. -/
structure Weighed (fuel : Nat) : Prop where
  item : ∀ {depth : Nat} {inTag : Bool} {data rest : List UInt8} {item : Item},
    readItem fuel depth inTag data = .ok (item, rest) → item.weight + rest.length ≤ data.length
  items : ∀ {depth count : Nat} {seen items : List Item} {data rest : List UInt8},
    readItems fuel depth count seen data = .ok (items, rest) →
      weightAll items + rest.length ≤ weightAll seen + data.length
  untilBreak : ∀ {depth limit : Nat} {seen items : List Item} {data rest : List UInt8},
    readUntilBreak fuel depth limit seen data = .ok (items, rest) →
      weightAll items + rest.length ≤ weightAll seen + data.length

theorem Weighed.zero : Weighed 0 where
  item h := by simp [readItem] at h
  items h := by simp [readItems] at h
  untilBreak h := by simp [readUntilBreak] at h

/-- An item made of parts comes from a reader of the parts. -/
theorem wrapped_eq_ok {α : Type} {parts : Except Flaw (α × List UInt8)} {wrap : α → Item} {item : Item}
    {rest : List UInt8} (h : (do let (a, after) ← parts; return (wrap a, after)) = .ok (item, rest)) :
    ∃ a, parts = .ok (a, rest) ∧ wrap a = item := by
  obtain ⟨⟨a, after⟩, hparts, heq⟩ := bind_eq_ok.mp h
  obtain ⟨rfl, rfl⟩ : wrap a = item ∧ after = rest := by simpa [pure, Except.pure] using heq
  exact ⟨a, hparts, rfl⟩

theorem Weighed.item_succ {fuel depth : Nat} {inTag : Bool} {data rest : List UInt8} {item : Item}
    (hw : Weighed fuel) (h : readItem (fuel + 1) depth inTag data = .ok (item, rest)) :
    item.weight + rest.length ≤ data.length := by
  rw [readItem] at h
  obtain ⟨⟨head, tail⟩, hhead, h⟩ := bind_eq_ok.mp h
  have hshort := readHead_shortens hhead
  -- the head pays for the item's own byte, and the parts weigh what they take
  suffices hparts : ∃ parts, item.weight = parts + 1 ∧ parts + rest.length ≤ tail.length by
    obtain ⟨parts, hweight, hle⟩ := hparts
    omega
  cases hmajor : head.major <;> simp only [hmajor] at h
  case unsigned | negative | other =>
    obtain ⟨rfl, rfl⟩ : _ = item ∧ tail = rest := by simpa [pure, Except.pure] using h
    exact ⟨0, by simp [Item.weight, weight_ofOther], by omega⟩
  case bytes | text =>
    obtain ⟨chunks, hchunks, rfl⟩ := wrapped_eq_ok h
    exact ⟨_, by rw [Item.weight], readString_length hchunks⟩
  case array =>
    split at h
    · cases h
    · split at h
      · obtain ⟨items, hitems, rfl⟩ := wrapped_eq_ok h
        exact ⟨_, by rw [Item.weight], by simpa [weightAll] using hw.untilBreak hitems⟩
      · obtain ⟨count, -, h⟩ := bind_eq_ok.mp h
        obtain ⟨items, hitems, rfl⟩ := wrapped_eq_ok h
        exact ⟨_, by rw [Item.weight], by simpa [weightAll] using hw.items hitems⟩
  case map =>
    split at h
    · cases h
    · split at h
      · obtain ⟨⟨items, after⟩, hitems, h⟩ := bind_eq_ok.mp h
        dsimp only at h
        split at h
        · cases h
        · obtain ⟨rfl, rfl⟩ : Item.map items = item ∧ after = rest := by
            simpa [pure, Except.pure] using h
          exact ⟨_, by rw [Item.weight], by simpa [weightAll] using hw.untilBreak hitems⟩
      · obtain ⟨count, -, h⟩ := bind_eq_ok.mp h
        obtain ⟨items, hitems, rfl⟩ := wrapped_eq_ok h
        exact ⟨_, by rw [Item.weight], by simpa [weightAll] using hw.items hitems⟩
  case tag =>
    generalize (if inTag then depth + 1 else depth) = inner at h
    split at h
    · cases h
    · obtain ⟨content, hcontent, rfl⟩ := wrapped_eq_ok h
      exact ⟨_, by rw [Item.weight], hw.item hcontent⟩

theorem Weighed.items_succ {fuel depth count : Nat} {seen items : List Item} {data rest : List UInt8}
    (hw : Weighed fuel) (h : readItems (fuel + 1) depth count seen data = .ok (items, rest)) :
    weightAll items + rest.length ≤ weightAll seen + data.length := by
  cases count with
  | zero =>
    obtain ⟨rfl, rfl⟩ : seen.reverse = items ∧ data = rest := by simpa [readItems] using h
    rw [weightAll_reverse]
  | succ count =>
    rw [readItems] at h
    obtain ⟨⟨item, tail⟩, hitem, hrest⟩ := bind_eq_ok.mp h
    have hfirst := hw.item hitem
    have hothers := hw.items hrest
    simp only [weightAll] at hothers
    omega

theorem Weighed.untilBreak_succ {fuel depth limit : Nat} {seen items : List Item}
    {data rest : List UInt8} (hw : Weighed fuel)
    (h : readUntilBreak (fuel + 1) depth limit seen data = .ok (items, rest)) :
    weightAll items + rest.length ≤ weightAll seen + data.length := by
  cases data with
  | nil => simp [readUntilBreak] at h
  | cons b data =>
    rw [readUntilBreak] at h
    split at h
    · obtain ⟨rfl, rfl⟩ : seen.reverse = items ∧ data = rest := by simpa using h
      rw [weightAll_reverse, List.length_cons]
      omega
    · obtain ⟨⟨item, tail⟩, hitem, hrest⟩ := bind_eq_ok.mp h
      dsimp only at hrest
      split at hrest
      · cases hrest
      · have hfirst := hw.item hitem
        have hothers := hw.untilBreak hrest
        simp only [weightAll] at hothers
        omega

theorem weighed (fuel : Nat) : Weighed fuel := by
  -- the readers call one another with less fuel, so they are weighed together
  induction fuel with
  | zero => exact .zero
  | succ fuel ih => exact ⟨ih.item_succ, ih.items_succ, ih.untilBreak_succ⟩

/-- **An item weighs no more than the bytes that it is decoded from.** -/
theorem weight_le_of_decode {data : List UInt8} {item : Item} (h : decode data = .ok item) :
    item.weight ≤ data.length := by
  unfold decode at h
  split at h
  · cases h
  · obtain ⟨⟨read, rest⟩, hread, h⟩ := bind_eq_ok.mp h
    dsimp only at h
    split at h
    · obtain rfl : read = item := by simpa [pure, Except.pure] using h
      exact Nat.le_of_add_right_le ((weighed _).item hread)
    · cases h

end StripSequencer.Cbor
