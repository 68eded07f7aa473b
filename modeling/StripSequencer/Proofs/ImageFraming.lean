import StripSequencer.Proofs.FileWrites
import StripSequencer.Proofs.ImageRoundTrip

/-!
# `StripSequencer.Proofs.ImageFraming` — cut and overlong images are rejected

Heads, strings and maps announce how much follows them, so bytes that were cut off end before something that was
announced. An image is one map of plain items: wherever it is cut, the reader runs out of bytes inside a head, inside a
string or between two entries. What follows a whole image was not announced.

## Contents
- `Cbor.readHead_cut`, `readItem_cut`, `readItems_cut`, `decode_cut_map`: what was cut off is truncated, from heads to
  maps.
- `Cbor.decode_map_append`: what follows a map is extraneous.
- `Image.plain_entries_of_length`, `Image.decode_cut`, `Image.decode_encode_append`: the same for images.
- `partial_images_rejected`: all together, and for files.
-/

namespace StripSequencer

namespace Cbor

/-! ## Cuts -/

/-- A cut through two parts goes through the first, or leaves it whole and goes through the second. -/
theorem cut_append {cut lost front back : List UInt8} (h : cut ++ lost = front ++ back) :
    (∃ rest, rest ≠ [] ∧ cut ++ rest = front) ∨ ∃ begun, cut = front ++ begun ∧ begun ++ lost = back := by
  rcases List.append_eq_append_iff.mp h with ⟨rest, hfront, hback⟩ | ⟨begun, hcut, hback⟩
  · by_cases hrest : rest = []
    · subst hrest
      refine .inr ⟨[], ?_, ?_⟩
      · rw [List.append_nil, hfront, List.append_nil]
      · rw [hback, List.nil_append, List.nil_append]
    · exact .inl ⟨rest, hrest, hfront.symm⟩
  · exact .inr ⟨begun, hcut, hback.symm⟩

variable {cut lost : List UInt8}

theorem splitBytes_cut {n : Nat} (h : (cut ++ lost).length = n) (hlost : lost ≠ []) :
    splitBytes n cut = .error .truncated := by
  have hpos := List.length_pos_of_ne_nil hlost
  rw [List.length_append] at h
  exact if_pos (by omega)

theorem readWide_cut {width n : Nat} (h : cut ++ lost = bigEndian width n) (hlost : lost ≠ []) (major : Major)
    (info : Nat) : readWide major info width cut = .error .truncated := by
  have hlength : (cut ++ lost).length = width := by rw [h, length_bigEndian]
  unfold readWide
  rw [splitBytes_cut hlength hlost]
  rfl

/-- A head is the byte with its lower bits, and the bytes of the number if they do not hold it. -/
theorem headBytes_cases (major : Major) (n : Nat) :
    headBytes major n = [headByte major n]
      ∨ ∃ info width, (info = 24 ∧ width = 1 ∨ info = 25 ∧ width = 2 ∨ info = 26 ∧ width = 4 ∨ info = 27 ∧ width = 8)
        ∧ headBytes major n = headByte major info :: bigEndian width n := by
  unfold headBytes
  split
  · exact .inl rfl
  · refine .inr ?_
    split
    · exact ⟨24, 1, by simp, rfl⟩
    · split
      · exact ⟨25, 2, by simp, rfl⟩
      · split
        · exact ⟨26, 4, by simp, rfl⟩
        · exact ⟨27, 8, by simp, rfl⟩

/-- **A head that is cut off is truncated**, before its first byte or inside its number. -/
theorem readHead_cut {major : Major} {n : Nat} (h : cut ++ lost = headBytes major n) (hlost : lost ≠ []) :
    readHead cut = .error .truncated := by
  cases cut with
  | nil => rfl
  | cons b cut =>
    rcases headBytes_cases major n with hshort | ⟨info, width, hwidth, hwide⟩
    · rw [hshort] at h
      injection h with _ htail
      exact absurd (List.append_eq_nil_iff.mp htail).2 hlost
    · rw [hwide] at h
      injection h with hbyte htail
      subst hbyte
      rcases hwidth with ⟨rfl, rfl⟩ | ⟨rfl, rfl⟩ | ⟨rfl, rfl⟩ | ⟨rfl, rfl⟩ <;>
        simp [readHead, headByte_mod, readWide_cut htail hlost, bind, Except.bind]

theorem readString_cut (fuel : Nat) {major : Major} {chunk : List UInt8} (hlength : chunk.length < UInt64.size / 2)
    (h : cut ++ lost = chunk) (hlost : lost ≠ []) :
    readString fuel ⟨major, headInfo chunk.length, chunk.length⟩ cut = .error .truncated := by
  have hinfo : headInfo chunk.length ≠ 31 := by
    have hlt := headInfo_lt chunk.length
    omega
  have hsplit : splitBytes chunk.length cut = .error .truncated := splitBytes_cut (by rw [h]) hlost
  simp [readString, Head.isIndefinite, hinfo, checkLength, Nat.not_le.mpr hlength, hsplit, bind, Except.bind]

/-- In its head it does not matter what an item is. -/
theorem readItem_head_cut {major : Major} {n : Nat} (h : cut ++ lost = headBytes major n) (hlost : lost ≠ [])
    (fuel depth : Nat) (inTag : Bool) : readItem (fuel + 1) depth inTag cut = .error .truncated := by
  rw [readItem, readHead_cut h hlost]
  rfl

/-- In a string it does not matter which of the two kinds it is of. -/
theorem readItem_string_cut {major : Major} (hmajor : major = .bytes ∨ major = .text) {chunk : List UInt8}
    (hlength : chunk.length < UInt64.size / 2) (h : cut ++ lost = headBytes major chunk.length ++ chunk)
    (hlost : lost ≠ []) (fuel depth : Nat) (inTag : Bool) :
    readItem (fuel + 1) depth inTag cut = .error .truncated := by
  rcases cut_append h with ⟨rest, hrest, hhead⟩ | ⟨begun, rfl, hbegun⟩
  · exact readItem_head_cut hhead hrest fuel depth inTag
  · have hn : chunk.length < UInt64.size := Nat.lt_of_lt_of_le hlength (Nat.div_le_self _ _)
    have hother : major ≠ .other := by rcases hmajor with rfl | rfl <;> decide
    have hhead := readHead_headBytes hn (.inl hother) begun
    rcases hmajor with rfl | rfl <;>
      simp [readItem, hhead, readString_cut fuel hlength hbegun hlost, bind, Except.bind]

/-- **A plain item that is cut off is truncated**, at any place. -/
theorem readItem_cut {item : Item} (hplain : item.Plain) (h : cut ++ lost = item.encode) (hlost : lost ≠ [])
    (fuel depth : Nat) (inTag : Bool) : readItem fuel depth inTag cut = .error .truncated := by
  cases fuel with
  | zero => rw [readItem]
  | succ fuel =>
    cases hplain with
    | unsigned _ => exact readItem_head_cut h hlost fuel depth inTag
    | negative _ => exact readItem_head_cut h hlost fuel depth inTag
    | simple _ => exact readItem_head_cut h hlost fuel depth inTag
    | @bytes chunk hlength =>
      rw [Item.encode, List.flatten_singleton] at h
      exact readItem_string_cut (by decide) hlength h hlost fuel depth inTag
    | @text chunk hlength =>
      rw [Item.encode, List.flatten_singleton] at h
      exact readItem_string_cut (by decide) hlength h hlost fuel depth inTag

/-- Items that are cut off are truncated, between two of them as well: their number was announced. -/
theorem readItems_cut {items : List Item} (hplain : ∀ item ∈ items, item.Plain) (h : cut ++ lost = encodeAll items)
    (hlost : lost ≠ []) (fuel depth : Nat) (seen : List Item) :
    readItems fuel depth items.length seen cut = .error .truncated := by
  induction items generalizing cut fuel seen with
  | nil => exact absurd (List.append_eq_nil_iff.mp h).2 hlost
  | cons item items ih =>
    obtain ⟨hitem, hitems⟩ := List.forall_mem_cons.mp hplain
    cases fuel with
    | zero => rw [readItems]
    | succ fuel =>
      rw [List.length_cons, readItems]
      rcases cut_append h with ⟨rest, hrest, hfirst⟩ | ⟨begun, rfl, hbegun⟩
      · rw [readItem_cut hitem hfirst hrest]
        rfl
      · -- the first item is whole, unless the readers stop before it
        cases fuel with
        | zero =>
          rw [readItem]
          rfl
        | succ fuel =>
          rw [readItem_encode hitem]
          exact ih hitems hbegun (fuel + 1) (item :: seen)

theorem length_encode_le_of_mem {item : Item} {items : List Item} (h : item ∈ items) :
    item.encode.length ≤ (encodeAll items).length := by
  induction items with
  | nil => cases h
  | cons first items ih =>
    rw [encodeAll, List.length_append]
    rcases List.mem_cons.mp h with rfl | h
    · exact Nat.le_add_right _ _
    · exact Nat.le_add_left_of_le (ih h)

section Maps

variable {entries : List Item} {count : Nat}

/-- **A map of plain items that is cut off is truncated.** -/
theorem readItem_map_cut (hplain : ∀ item ∈ entries, item.Plain) (hlength : entries.length = 2 * count)
    (hcount : count ≤ maxCount) (h : cut ++ lost = (Item.map entries).encode) (hlost : lost ≠ [])
    {depth : Nat} (hdepth : depth < maxDepth) (inTag : Bool) (fuel : Nat) :
    readItem (fuel + 1) depth inTag cut = .error .truncated := by
  have hhalf : entries.length / 2 = count := by omega
  rw [Item.encode, hhalf] at h
  rcases cut_append h with ⟨rest, hrest, hhead⟩ | ⟨begun, rfl, hbegun⟩
  · exact readItem_head_cut hhead hrest fuel depth inTag
  · have hn : count < UInt64.size := Nat.lt_of_le_of_lt hcount (by decide)
    have hhead := @readHead_headBytes .map count hn (.inl (by decide)) begun
    have hdefinite : headInfo count ≠ 31 := by
      have hlt := headInfo_lt count
      omega
    have hitems := readItems_cut hplain hbegun hlost fuel (depth + 1) []
    rw [hlength] at hitems
    simp [readItem, hhead, Nat.not_le.mpr hdepth, Head.isIndefinite, hdefinite, checkCount, Nat.not_lt.mpr hcount,
      hitems, bind, Except.bind]

/-- What is left of the bytes of a map is decoded as empty or as truncated. -/
theorem decode_cut_map (hplain : ∀ item ∈ entries, item.Plain) (hlength : entries.length = 2 * count)
    (hcount : count ≤ maxCount) (h : cut ++ lost = (Item.map entries).encode) (hlost : lost ≠ []) :
    decode cut = .error (if cut = [] then .empty else .truncated) := by
  by_cases hnil : cut = []
  · subst hnil
    rfl
  · have hdepth : 0 < maxDepth := by decide
    have hread := readItem_map_cut hplain hlength hcount h hlost hdepth false (2 * cut.length + 1)
    simp [decode, hnil, hread, bind, Except.bind]

/-- What follows the bytes of a map is extraneous. -/
theorem decode_map_append (hplain : ∀ item ∈ entries, item.Plain) (hlength : entries.length = 2 * count)
    (hcount : count ≤ maxCount) {extra : List UInt8} (hextra : extra ≠ []) :
    decode ((Item.map entries).encode ++ extra)
      = .error (.extraneous extra.length (Item.map entries).encode.length) := by
  have hne : (Item.map entries).encode ≠ [] := List.ne_nil_of_length_pos (Item.length_encode_pos _)
  -- every item takes a byte, so the bound on the depth of the calls exceeds the number of items
  have hfuel : entries.length < 2 * ((Item.map entries).encode ++ extra).length + 1 := by
    have hle := length_le_length_encodeAll entries
    rw [Item.encode, List.length_append, List.length_append]
    omega
  have hdepth : 0 < maxDepth := by decide
  have hread := readItem_encode_map hplain hlength hcount hfuel hdepth false extra
  rw [List.length_append] at hread
  simp [decode, hne, hread, hextra, bind, Except.bind]

end Maps

end Cbor

/-! ## Images -/

namespace Image

open Cbor

variable {img : Image}

/-- A field that is written is part of the image's bytes. -/
theorem length_item_le {f : Field} (h : f ∈ img.written) : (img.item f).encode.length ≤ img.encode.length := by
  have hmem : img.item f ∈ img.written.flatMap fun f => [Item.unsigned f.number, img.item f] :=
    List.mem_flatMap.mpr ⟨f, h, by simp⟩
  have hle := length_encode_le_of_mem hmem
  rw [encode, toItem, Item.encode, List.length_append]
  omega

theorem magic_mem_written (img : Image) : .magic ∈ img.written := by
  unfold written
  split <;> decide

theorem code_mem_written (img : Image) : .code ∈ img.written := by
  unfold written
  split <;> decide

/-- The strings of an image that fits into memory do as well, so all its items can be read. -/
theorem plain_entries_of_length (h : img.encode.length < UInt64.size / 2) :
    ∀ item ∈ img.written.flatMap fun f => [Item.unsigned f.number, img.item f], item.Plain := by
  apply plain_entries
  -- each of the two strings is shorter than its item, and the item is no longer than the image
  · have hle := length_item_le img.magic_mem_written
    simp only [item, Item.encode, List.flatten_singleton, List.length_append] at hle
    omega
  · have hle := length_item_le img.code_mem_written
    unfold program
    unfold item at hle
    cases hcode : img.code with
    | none => decide
    | some code =>
      simp only [hcode, Item.encode, List.flatten_singleton, List.length_append] at hle
      simp only [Option.getD_some]
      omega

/-- **An image that is cut off is rejected.** -/
theorem decode_cut (hlength : img.encode.length < UInt64.size / 2) {cut lost : List UInt8}
    (h : cut ++ lost = img.encode) (hlost : lost ≠ []) :
    decode cut = .error (.encoding (if cut = [] then .empty else .truncated)) := by
  have hread := decode_cut_map (plain_entries_of_length hlength) img.length_entries img.length_written_le h hlost
  unfold decode
  rw [hread]
  rfl

/-- **An image with something behind it is rejected.** -/
theorem decode_encode_append (hlength : img.encode.length < UInt64.size / 2) {extra : List UInt8}
    (hextra : extra ≠ []) :
    decode (img.encode ++ extra) = .error (.encoding (.extraneous extra.length img.encode.length)) := by
  have hread := decode_map_append (plain_entries_of_length hlength) img.length_entries img.length_written_le hextra
  unfold decode
  rw [encode, toItem, hread]
  rfl

/-- A file is rejected as its content is. -/
theorem readFrom_eq_error {files : FileTree} {path : Text} {data : List UInt8} {e : Error}
    (hread : files.read path = .ok data) (h : decode data = .error e) :
    readFrom files path = .error (.image path e) := by
  unfold readFrom
  rw [hread]
  simp [h]

end Image

/-- **A cut or overlong image is never accepted.** The number of its bytes is a signed number of 64 bits; its magic
word may hold any bytes, and its version, capacity and code may be any. What is left of it is rejected as empty or as truncated, and what is
longer as extraneous, with the number of bytes that follow. So a file that was written only in part is rejected
when it is read. -/
theorem partial_images_rejected (img : Image) (hlength : img.encode.length < UInt64.size / 2) :
    (∀ cut, cut <+: img.encode → cut ≠ img.encode →
      Image.decode cut = .error (.encoding (if cut = [] then .empty else .truncated)))
    ∧ (∀ extra, extra ≠ [] →
      Image.decode (img.encode ++ extra) = .error (.encoding (.extraneous extra.length img.encode.length)))
    ∧ (∀ (files written : FileTree) (path : Text) (cut : List UInt8), cut <+: img.encode → cut ≠ img.encode →
      files.write path cut = .ok written →
      Image.readFrom written path = .error (.image path (.encoding (if cut = [] then .empty else .truncated)))) := by
  have hcut : ∀ cut, cut <+: img.encode → cut ≠ img.encode →
      Image.decode cut = .error (.encoding (if cut = [] then .empty else .truncated)) := by
    rintro cut ⟨lost, hlost⟩ hproper
    refine Image.decode_cut hlength hlost ?_
    rintro rfl
    exact hproper (by rw [← hlost, List.append_nil])
  refine ⟨hcut, ?_, ?_⟩
  · intro extra hextra
    exact Image.decode_encode_append hlength hextra
  · intro files written path cut hprefix hproper hwrite
    exact Image.readFrom_eq_error (FileTree.read_write hwrite) (hcut cut hprefix hproper)

/-- A program of three instructions that lost the third: the two that are left would be a program as well. Nothing is
left of it, another image follows it, and what is left of it stands in a file. -/
theorem image_cut_inside_program_rejected :
    (Image.ofCode [1, 1, 1] 64).encode.length < UInt64.size / 2
    ∧ Image.decode (Image.ofCode [1, 1, 1] 64).encode.dropLast = .error (.encoding .truncated)
    ∧ Image.decode [] = .error (.encoding .empty)
    ∧ Image.decode ((Image.ofCode [1, 1, 1] 64).encode ++ (Image.ofCode [1] 64).encode)
        = .error (.encoding (.extraneous 15 17))
    ∧ ∃ written, ({} : FileTree).write "/boot.lseq" (Image.ofCode [1, 1, 1] 64).encode.dropLast = .ok written
        ∧ Image.readFrom written "/boot.lseq" = .error (.image "/boot.lseq" (.encoding .truncated)) := by
  have hlength : (Image.ofCode [1, 1, 1] 64).encode.length < UInt64.size / 2 := by decide
  have hprefix := List.dropLast_prefix (Image.ofCode [1, 1, 1] 64).encode
  have hwrite : ({} : FileTree).write "/boot.lseq" (Image.ofCode [1, 1, 1] 64).encode.dropLast
      = .ok { nodes := [(["boot.lseq"], .file (Image.ofCode [1, 1, 1] 64).encode.dropLast)] } := by
    cbv
  obtain ⟨hcut, hextra, hfile⟩ := partial_images_rejected (Image.ofCode [1, 1, 1] 64) hlength
  exact ⟨hlength, hcut _ hprefix (by decide), hcut [] List.nil_prefix (by decide), hextra _ (by decide), _, hwrite,
    hfile _ _ _ _ hprefix (by decide) hwrite⟩

end StripSequencer
