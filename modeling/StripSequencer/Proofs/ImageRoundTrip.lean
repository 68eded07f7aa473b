import Mathlib
import StripSequencer.Image
import StripSequencer.Proofs.CborReading
import StripSequencer.Proofs.ProgramFrame

/-!
# `StripSequencer.Proofs.ImageRoundTrip` — images survive being written and read

An image that passes its check is decoded from the bytes that it is encoded as, with all its fields. What
is decoded from other spellings of an image passed the check, and so can be written and read again. The
image of a sequencer passes the check in every mode, because its program is a list of complete
instructions inside the buffer.

## Contents
- `Image.copied`, `setField_item`, `setEntries_fields`: a field is decoded from the item it is written as,
  and so are all fields.
- `Image.validate_eq_ok_iff`, `Image.decode_encode`: what passes the check is read back.
- `Image.length_le_of_decode`: a program is no longer than the bytes it is decoded from.
- `Holds.validate_ofSequencer`, `Sequencer.exists_load`: the image of a sequencer, and its way back.
- `images_round_trip`: all together.
-/

namespace StripSequencer

open Program

/-! ## Items of integers -/

namespace Cbor

theorem ofInt_natCast (n : Nat) : Item.ofInt n = .unsigned n := by
  simp [Item.ofInt]

theorem untagged_ofInt (n : Int) : (Item.ofInt n).untagged = .ok (Item.ofInt n) := by
  unfold Item.ofInt
  split <;> rfl

theorem isNull_ofInt (n : Int) : (Item.ofInt n).isNull = false := by
  unfold Item.ofInt
  split <;> rfl

theorem integer?_ofInt (n : Int) : (Item.ofInt n).integer? = some n := by
  unfold Item.ofInt
  split
  · rename_i hnonneg
    exact congrArg some (Int.toNat_of_nonneg hnonneg)
  · have hnegative : -1 - ((-1 - n).toNat : Int) = n := by omega
    exact congrArg some hnegative

/-- An integer is decoded from its item if it lies between the bounds. -/
theorem decodeInt_ofInt {n low high : Int} (hlow : low ≤ n) (hhigh : n ≤ high) :
    (Item.ofInt n).decodeInt low high = .ok n := by
  simp [Item.decodeInt, untagged_ofInt, isNull_ofInt, integer?_ofInt, hlow, hhigh, bind, Except.bind]

theorem decodeInt_unsigned {n : Nat} {high : Int} (h : n ≤ high) :
    (Item.unsigned n).decodeInt 0 high = .ok n := by
  rw [← ofInt_natCast]
  exact decodeInt_ofInt (Int.natCast_nonneg n) h

/-- The item of a signed number of 64 bits can be read back. -/
theorem plain_ofInt (n : Int64) : (Item.ofInt n.toInt).Plain := by
  have hlow := n.le_toInt
  have hhigh := n.toInt_lt
  have hsize : UInt64.size = 18446744073709551616 := rfl
  unfold Item.ofInt
  split
  · exact .unsigned (by omega)
  · exact .negative (by omega)

theorem decodeBytes_null : Item.null.decodeBytes = .ok none := rfl

theorem decodeBytes_chunk (chunk : List UInt8) : (Item.bytes [chunk]).decodeBytes = .ok (some chunk) := by
  simp [Item.decodeBytes, Item.untagged, bind, Except.bind, pure, Except.pure]

end Cbor

namespace Image

open Cbor

/-! ## Fields -/

/-- The image with one field taken from another. -/
def copied (img into : Image) : Field → Image
  | .magic => { into with magic := img.magic }
  | .version => { into with version := img.version }
  | .capacity => { into with capacity := img.capacity }
  | .leds => { into with leds := img.leds }
  | .code => { into with code := img.code }

theorem keyField?_number (f : Field) : keyField? (.unsigned f.number) = .ok (some f) := by
  cases f <;> rfl

theorem decodeText_magicWord :
    (Item.text [magicWord.bytes]).decodeText = .ok "LSEQ" := by
  cbv

/-- A field is decoded from the item that it is written as. -/
theorem setField_item {img : Image} (hmagic : img.magic = magicWord) (into : Image) (f : Field) :
    into.setField f (img.item f) = .ok (img.copied into f) := by
  cases f with
  | magic =>
    simp only [setField, item, copied, hmagic, decodeText_magicWord, Except.map]
    rfl
  | version =>
    have hlt := img.version.toNat_lt_size
    have hint := @decodeInt_unsigned img.version.toNat (UInt16.size - 1) (by omega)
    have hword : UInt16.ofInt img.version.toNat = img.version := by
      have hmod : ((img.version.toNat : Int) % 2 ^ 16).toNat = img.version.toNat := by
        rw [UInt16.size] at hlt
        omega
      rw [UInt16.ofInt, hmod, UInt16.ofNat_toNat]
    simp only [setField, item, copied, hint, Except.map, hword]
  | capacity =>
    have hint := decodeInt_ofInt img.capacity.minValue_le_toInt img.capacity.toInt_le
    simp only [setField, item, copied, hint, Except.map, Int64.ofInt_toInt]
  | leds =>
    have hlt := img.leds.toNat_lt_size
    have hint := @decodeInt_unsigned img.leds.toNat (UInt8.size - 1) (by omega)
    have hword : UInt8.ofInt img.leds.toNat = img.leds := by
      have hmod : ((img.leds.toNat : Int) % 2 ^ 8).toNat = img.leds.toNat := by
        rw [UInt8.size] at hlt
        omega
      rw [UInt8.ofInt, hmod, UInt8.ofNat_toNat]
    simp only [setField, item, copied, hint, Except.map, hword]
  | code =>
    have hbytes : (img.item .code).decodeBytes = .ok img.code := by
      unfold item
      cases img.code with
      | none => exact decodeBytes_null
      | some code => exact decodeBytes_chunk code
    simp only [setField, copied, hbytes, Except.map]

/-- Fields that are written once each are all decoded. -/
theorem setEntries_fields {img : Image} (hmagic : img.magic = magicWord) {fields : List Field}
    (hnodup : fields.Nodup) {found : List Field} (hfresh : ∀ f ∈ fields, f ∉ found) (into : Image) :
    setEntries into found (fields.flatMap fun f => [.unsigned f.number, img.item f])
      = .ok (fields.foldl img.copied into) := by
  -- on the fields that are left; those before them are found, and an entry of a found field is skipped
  induction fields generalizing found into with
  | nil => rfl
  | cons f fields ih =>
    obtain ⟨hnew, hnodup⟩ := List.nodup_cons.mp hnodup
    obtain ⟨hf, hothers⟩ := List.forall_mem_cons.mp hfresh
    have hfresh' : ∀ g ∈ fields, g ∉ f :: found := by
      intro g hg hmem
      rcases List.mem_cons.mp hmem with rfl | hmem
      · exact hnew hg
      · exact hothers g hg hmem
    rw [List.flatMap_cons]
    simp [setEntries, keyField?_number, hf, setField_item hmagic, ih hnodup hfresh', bind, Except.bind]

theorem nodup_written (img : Image) : img.written.Nodup := by
  unfold written
  split <;> decide

/-- Where the length of the strip is left out it is zero, as it is before any field is set. -/
theorem foldl_copied_written (img : Image) : img.written.foldl img.copied zero = img := by
  unfold written
  split
  · rename_i hleds
    simp [copied, zero, ← hleds]
  · rfl

theorem ofItem_toItem {img : Image} (hmagic : img.magic = magicWord) : ofItem img.toItem = .ok img := by
  have hfresh : ∀ f ∈ img.written, f ∉ ([] : List Field) := fun f _ => List.not_mem_nil
  have hset := setEntries_fields hmagic img.nodup_written hfresh zero
  rw [foldl_copied_written] at hset
  exact hset

/-! ## Whole images -/

/-- The check accepts the right header and a program that fits a positive capacity. -/
theorem validate_eq_ok_iff {img : Image} :
    img.validate = .ok () ↔ img.magic = magicWord ∧ img.version = currentVersion
      ∧ (0 < img.capacity → (img.program.length : Int) ≤ img.capacity.toInt)
      ∧ Program.validate img.program = .ok () := by
  unfold validate
  constructor
  · intro h
    split at h
    · cases h
    · rename_i hmagic
      split at h
      · cases h
      · rename_i hversion
        split at h
        · cases h
        · rename_i hlong
          split at h
          · cases h
          · rename_i hcode
            refine ⟨Decidable.not_not.mp hmagic, Decidable.not_not.mp hversion, ?_, hcode⟩
            intro hpos
            exact Int.not_lt.mp fun hlt => hlong ⟨hpos, hlt⟩
  · rintro ⟨hmagic, hversion, hfits, hcode⟩
    have hlong : ¬ (0 < img.capacity ∧ img.capacity.toInt < img.program.length) :=
      fun h => absurd (hfits h.1) (Int.not_le.mpr h.2)
    rw [if_neg (not_not_intro hmagic), if_neg (not_not_intro hversion), if_neg hlong, hcode]

/-- The value of every field can be read back, if its length is a signed number of 64 bits. -/
theorem plain_item {img : Image} (hmagic : img.magic.bytes.length < UInt64.size / 2)
    (hlength : img.program.length < UInt64.size / 2) (f : Field) : (img.item f).Plain := by
  cases f with
  | magic => exact .text hmagic
  | version => exact .unsigned (Nat.lt_trans img.version.toNat_lt_size (by decide))
  | capacity => exact plain_ofInt img.capacity
  | leds => exact .unsigned (Nat.lt_trans img.leds.toNat_lt_size (by decide))
  | code =>
    unfold item
    unfold program at hlength
    cases hcode : img.code with
    | none => exact .simple (by decide)
    | some code =>
      rw [hcode] at hlength
      exact .bytes hlength

theorem plain_entries {img : Image} (hmagic : img.magic.bytes.length < UInt64.size / 2)
    (hlength : img.program.length < UInt64.size / 2) :
    ∀ item ∈ img.written.flatMap fun f => [.unsigned f.number, img.item f], item.Plain := by
  intro item hitem
  obtain ⟨f, -, hmem⟩ := List.mem_flatMap.mp hitem
  rw [List.mem_cons, List.mem_singleton] at hmem
  rcases hmem with rfl | rfl
  · cases f <;> exact .unsigned (by decide)
  · exact plain_item hmagic hlength f

theorem length_entries (img : Image) :
    (img.written.flatMap fun f => [Item.unsigned f.number, img.item f]).length = 2 * img.written.length := by
  unfold written
  split <;> rfl

theorem length_written_le (img : Image) : img.written.length ≤ maxCount := by
  unfold written
  split <;> decide

/-- **An image that passes its check is read back,** if its length is a signed number of 64 bits. -/
theorem decode_encode {img : Image} (h : img.validate = .ok ())
    (hlength : img.program.length < UInt64.size / 2) : decode img.encode = .ok img := by
  have hmagic := (validate_eq_ok_iff.mp h).1
  have hword : img.magic.bytes.length < UInt64.size / 2 := by
    rw [hmagic]
    decide
  have hread : Cbor.decode img.encode = .ok img.toItem :=
    decode_encode_map (plain_entries hword hlength) img.length_entries img.length_written_le
  simp [decode, hread, Except.bind, ofItem_toItem hmagic, h, Except.map]

end Image

/-! ## Lengths -/

namespace Cbor

theorem weight_untagged_le {item bare : Item} (h : item.untagged = .ok bare) :
    bare.weight ≤ item.weight := by
  fun_induction Item.untagged item with
  | case1 content ih => exact Nat.le_succ_of_le (ih h)
  | case2 number content hself hfits hbig =>
    obtain rfl : Item.tag number content = bare := by simpa using h
    exact Nat.le_refl _
  | case3 number content hself hfits hbig ih => exact Nat.le_succ_of_le (ih h)
  | case4 number content hself hfits => cases h
  | case5 item htag =>
    obtain rfl : item = bare := by simpa using h
    exact Nat.le_refl _

theorem length_of_mapM {f : Item → Except Flaw Int} {items : List Item} {values : List Int}
    (h : items.mapM f = .ok values) : values.length = items.length := by
  induction items generalizing values with
  | nil =>
    obtain rfl : [] = values := by simpa [pure, Except.pure] using h
    rfl
  | cons item items ih =>
    rw [List.mapM_cons] at h
    obtain ⟨value, -, h⟩ := bind_eq_ok.mp h
    obtain ⟨others, hothers, h⟩ := bind_eq_ok.mp h
    obtain rfl : value :: others = values := by simpa [pure, Except.pure] using h
    rw [List.length_cons, List.length_cons, ih hothers]

/-- The bytes of an item weigh no more than the item. -/
theorem length_le_of_decodeBytes {item : Item} {code : Option (List UInt8)}
    (h : item.decodeBytes = .ok code) : (code.getD []).length ≤ item.weight := by
  obtain ⟨bare, hbare, h⟩ := bind_eq_ok.mp h
  apply Nat.le_trans _ (weight_untagged_le hbare)
  split at h
  · rename_i chunks
    obtain rfl : some chunks.flatten = code := by simpa [pure, Except.pure] using h
    exact Nat.le_succ _
  · rename_i number chunks
    obtain rfl : some chunks.flatten = code := by simpa [pure, Except.pure] using h
    exact Nat.le_succ_of_le (Nat.le_succ _)
  · rename_i items
    obtain ⟨values, hvalues, h⟩ := bind_eq_ok.mp h
    obtain rfl : some (values.map fun n => UInt8.ofNat n.toNat) = code := by
      simpa [pure, Except.pure] using h
    have hlength := length_of_mapM hvalues
    have hweight := length_le_weightAll items
    simp only [Option.getD_some, List.length_map, Item.weight]
    omega
  · split at h
    · obtain rfl : none = code := by simpa [pure, Except.pure] using h
      exact Nat.zero_le _
    · cases h

end Cbor

namespace Image

open Cbor

theorem length_le_of_setField {into img : Image} {f : Field} {item : Item}
    (h : into.setField f item = .ok img) : img.program.length ≤ max into.program.length item.weight := by
  cases f with
  | code =>
    obtain ⟨code, hcode, rfl⟩ := map_eq_ok.mp h
    exact Nat.le_trans (length_le_of_decodeBytes hcode) (Nat.le_max_right _ _)
  | magic | version | capacity | leds =>
    obtain ⟨value, -, rfl⟩ := map_eq_ok.mp h
    exact Nat.le_max_left _ _

theorem length_le_of_setEntries {into img : Image} {found : List Field} {entries : List Item}
    (h : into.setEntries found entries = .ok img) :
    img.program.length ≤ max into.program.length (weightAll entries) := by
  fun_induction setEntries into found entries with
  | case1 into found key value entries ihskip ihset =>
    obtain ⟨field?, -, h⟩ := bind_eq_ok.mp h
    have hweight : weightAll (key :: value :: entries) = key.weight + (value.weight + weightAll entries) := rfl
    cases field? with
    | none =>
      have hle := ihskip h
      omega
    | some f =>
      dsimp only at h
      split at h
      · have hle := ihskip h
        omega
      · -- only this value can have replaced the program
        obtain ⟨next, hnext, h⟩ := bind_eq_ok.mp h
        have hfirst := length_le_of_setField hnext
        have hle := ihset f next h
        omega
  | case2 entries into found hshort =>
    obtain rfl : into = img := by simpa using h
    exact Nat.le_max_left _ _

theorem length_le_of_ofItem {item : Item} {img : Image} (h : ofItem item = .ok img) :
    img.program.length ≤ item.weight := by
  obtain ⟨bare, hbare, h⟩ := bind_eq_ok.mp h
  apply Nat.le_trans _ (weight_untagged_le hbare)
  split at h
  · have hle := length_le_of_setEntries h
    have hzero : zero.program.length = 0 := rfl
    simp only [Item.weight]
    omega
  · split at h
    · obtain rfl : zero = img := by simpa using h
      exact Nat.zero_le _
    · cases h

/-- What is decoded passed the check. -/
theorem validate_of_decode {data : List UInt8} {img : Image} (h : decode data = .ok img) :
    img.validate = .ok () := by
  unfold decode at h
  split at h
  · cases h
  · obtain ⟨⟨⟩, hvalid, rfl⟩ := map_eq_ok.mp h
    exact hvalid

/-- **A program is no longer than the bytes that it is decoded from.** -/
theorem length_le_of_decode {data : List UInt8} {img : Image} (h : decode data = .ok img) :
    img.program.length ≤ data.length := by
  unfold decode at h
  split at h
  · cases h
  · rename_i found hfound
    obtain ⟨-, -, rfl⟩ := map_eq_ok.mp h
    obtain ⟨item, hitem, himg⟩ := bind_eq_ok.mp hfound
    exact Nat.le_trans (length_le_of_ofItem himg) (weight_le_of_decode hitem)

end Image

/-! ## Images of sequencers -/

/-- The program of a reachable state is a list of complete instructions inside the buffer, in every
mode, so its image passes the check. -/
theorem Sequencer.Holds.validate_ofSequencer {s : Sequencer} {p : List Instruction} (h : s.Holds p)
    (hcapacity : s.store.capacity < UInt64.size / 2) : (Image.ofSequencer s).validate = .ok () := by
  have hprogram : (Image.ofSequencer s).program = encode p := h.program_eq
  have hword : (Image.ofSequencer s).capacity.toInt = s.store.capacity :=
    Int64.toInt_ofNat_of_lt hcapacity
  have hfits := h.size_le_capacity
  refine Image.validate_eq_ok_iff.mpr ⟨rfl, rfl, ?_, ?_⟩
  · intro _
    rw [hprogram, hword, length_encode]
    omega
  · rw [hprogram]
    exact validate_encode p

/-- A program is loaded into every paused sequencer that has room for it. -/
theorem Sequencer.exists_load {t : Sequencer} (hm : t.mode = .paused) {p : List Instruction}
    (hfits : size p ≤ t.store.capacity) : ∃ t', t.load (encode p) = .ok t' ∧ t'.Holds p := by
  have hmode : t.mode ≠ .commandEntry := by
    rw [hm]
    decide
  exact ⟨_, Sequencer.load_eq_replaced hm hfits (validate_encode p), .replaced hmode⟩

/-- **Images round-trip.** Lengths and capacities are signed numbers of 64 bits. Every image that passes
its check is decoded from its bytes, with all fields; so is every image that was decoded from any bytes.
The image of a sequencer in any reachable state, in any mode, is decoded from its bytes, and when its
program is loaded into a paused sequencer with room for it, that has the program of the first. -/
theorem images_round_trip :
    (∀ img : Image, img.validate = .ok () → img.program.length < UInt64.size / 2 →
      Image.decode img.encode = .ok img)
    ∧ (∀ (data : List UInt8) (img : Image), data.length < UInt64.size / 2 →
      Image.decode data = .ok img → Image.decode img.encode = .ok img)
    ∧ (∀ s : Sequencer, s.Reachable → s.store.capacity < UInt64.size / 2 →
      ∃ img, Image.decode (Image.ofSequencer s).encode = .ok img ∧ img = Image.ofSequencer s
        ∧ ∀ t : Sequencer, t.mode = .paused → img.program.length ≤ t.store.capacity →
          ∃ t', t.load img.program = .ok t' ∧ t'.program = s.program) := by
  refine ⟨?_, ?_, ?_⟩
  · intro img hvalid hlength
    exact Image.decode_encode hvalid hlength
  · -- what was decoded passed the check, and is no longer than the bytes
    intro data img hdata hdecode
    have hlength := Image.length_le_of_decode hdecode
    exact Image.decode_encode (Image.validate_of_decode hdecode) (by omega)
  · intro s hs hcapacity
    obtain ⟨p, hp⟩ := hs.exists_program
    have hprogram : (Image.ofSequencer s).program = encode p := hp.program_eq
    have hfits := hp.size_le_capacity
    have hlength : (Image.ofSequencer s).program.length < UInt64.size / 2 := by
      rw [hprogram, length_encode]
      omega
    refine ⟨_, Image.decode_encode (hp.validate_ofSequencer hcapacity) hlength, rfl, ?_⟩
    -- the code in the image is the code of a list, which any paused sequencer with room accepts
    intro t hm hroom
    rw [hprogram, length_encode] at hroom
    obtain ⟨t', hload, ht'⟩ := Sequencer.exists_load hm hroom
    refine ⟨t', ?_, ?_⟩
    · rw [hprogram]
      exact hload
    · rw [ht'.program_eq, hp.program_eq]

/-- The least capacity without code; a map of indefinite length with chunked code, a text as a key, a
tagged magic word and a wide head; and a snapshot taken in command entry over stale bytes, loaded into a
buffer that it fills. -/
theorem unusual_images_round_trip :
    ((⟨Image.magicWord, 1, Int64.minValue, 255, none⟩ : Image).validate = .ok ()
      ∧ Image.decode (⟨Image.magicWord, 1, Int64.minValue, 255, none⟩ : Image).encode
        = .ok ⟨Image.magicWord, 1, Int64.minValue, 255, none⟩)
    ∧ (∃ img : Image, img.code = some [1, 3, 7]
      ∧ Image.decode
          [0xBF, 0x05, 0x5F, 0x41, 0x01, 0x42, 0x03, 0x07, 0xFF, 0x01, 0xD9, 0xD9, 0xF7, 0x64, 0x4C, 0x53,
            0x45, 0x51, 0x61, 0x32, 0x18, 0x01, 0x03, 0x19, 0x00, 0x05, 0x04, 0xF6, 0xFF] = .ok img
      ∧ Image.decode img.encode = .ok img)
    ∧ (∃ first, Sequencer.new { leds := 3, capacity := 5, code := encode [.clear, .clear, .clear] }
          = .ok first
      ∧ (first.after [.command 1 {}, .command 4 {}, .command 1 {}]).mode = .commandEntry
      ∧ ∃ img t', Image.decode
            (Image.ofSequencer (first.after [.command 1 {}, .command 4 {}, .command 1 {}])).encode = .ok img
          ∧ ({ leds := 3, capacity := 1 } : Sequencer.Setup).blank.load img.program = .ok t'
          ∧ t'.program = [1]) := by
  obtain ⟨hvalid, hdecoded, hsnapshot⟩ := images_round_trip
  refine ⟨?_, ?_, ?_⟩
  · have hcheck : (⟨Image.magicWord, 1, Int64.minValue, 255, none⟩ : Image).validate = .ok () := by cbv
    exact ⟨hcheck, hvalid _ hcheck (by decide)⟩
  · have hread : Image.decode
        [0xBF, 0x05, 0x5F, 0x41, 0x01, 0x42, 0x03, 0x07, 0xFF, 0x01, 0xD9, 0xD9, 0xF7, 0x64, 0x4C, 0x53,
          0x45, 0x51, 0x61, 0x32, 0x18, 0x01, 0x03, 0x19, 0x00, 0x05, 0x04, 0xF6, 0xFF]
        = .ok ⟨Image.magicWord, 1, 5, 0, some [1, 3, 7]⟩ := by
      cbv
    exact ⟨_, rfl, hread, hdecoded _ _ (by decide) hread⟩
  · have hnew := @new_encode { leds := 3, capacity := 5, code := encode [.clear, .clear, .clear] }
      [.clear, .clear, .clear] rfl (by decide)
    obtain ⟨img, hread, rfl, hload⟩ := hsnapshot _
      (Sequencer.Reachable.of_run hnew [.command 1 {}, .command 4 {}, .command 1 {}]) (by decide)
    obtain ⟨t', ht', hprogram⟩ :=
      hload ({ leds := 3, capacity := 1 } : Sequencer.Setup).blank rfl (by decide)
    exact ⟨_, hnew, by decide, _, t', hread, ht', hprogram⟩

end StripSequencer
