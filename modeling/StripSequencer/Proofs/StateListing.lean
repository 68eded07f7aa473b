import StripSequencer.Proofs.Consistency
import StripSequencer.Proofs.Reassembly

/-!
# `StripSequencer.Proofs.StateListing` — the listing of a sequencer tells its program and where it stands

A listing has a header with the counts of the buffer, a row for each instruction and a final row.
`Listing.readState?` takes the text apart again, and `Sequencer.Listed` says what a reader learns from it:
the program, the place of playback, whether a program is being entered, and whether the buffer is full.

Playback stands at an instruction of the program or at its end, and no two of these places have the same
offset; that is why one row is marked, and only one.

## Contents
- `Listing.readState?`, with `readState?_listing`: reading the text.
- `Program.places`: the offsets of the instructions and the end, with `filter_places`.
- `Sequencer.Listed`, `listing_faithful`.
-/

namespace StripSequencer

open Program

/-! ## Reading the text -/

namespace Listing

/-- What a listing says about the buffer. -/
structure Counts where
  bytes : Nat
  free : Nat
  capacity : Nat
deriving DecidableEq, Repr

/-- The words around the counts. -/
def Counts.labels : List (List Char) :=
  [";".toList, "program:".toList, "bytes,".toList, "of".toList, "free".toList]

/-- The words of the line with the counts. -/
def Counts.words (c : Counts) : List (List Char) :=
  [";".toList, "program:".toList, (toString c.bytes).toList, "bytes,".toList, (toString c.free).toList,
    "of".toList, (toString c.capacity).toList, "free".toList]

/-- The line with the counts. -/
def Counts.line (c : Counts) : List Char := [' '].intercalate c.words

/-- Reads the counts from their line. -/
def Counts.read? (line : List Char) : Option Counts :=
  match segments (· = ' ') line with
  | [first, second, bytes, third, free, fourth, capacity, fifth] =>
    if [first, second, third, fourth, fifth] = labels then
      match decimal? bytes, decimal? free, decimal? capacity with
      | some bytes, some free, some capacity => some ⟨bytes, free, capacity⟩
      | _, _, _ => none
    else none
  | _ => none

/-- Reads the listing of a sequencer: the counts from the second of three lines, and the rows from the lines
under an empty one. -/
def readState? (text : String) : Option (Counts × List Row) :=
  match segments (· = '\n') text.toList with
  | _ :: counts :: _ :: [] :: lines =>
    if lines.getLast? = some [] then
      match Counts.read? counts, lines.dropLast.mapM Row.read? with
      | some counts, some rows => some (counts, rows)
      | _, _ => none
    else none
  | _ => none

theorem Counts.mem_words {c : Counts} {word : List Char} (h : word ∈ c.words) :
    word ∈ labels ∨ ∃ n : Nat, word = (toString n).toList := by
  simp only [words, List.mem_cons, List.not_mem_nil, or_false] at h
  rcases h with rfl | rfl | rfl | rfl | rfl | rfl | rfl | rfl
  · exact .inl (by decide)
  · exact .inl (by decide)
  · exact .inr ⟨c.bytes, rfl⟩
  · exact .inl (by decide)
  · exact .inr ⟨c.free, rfl⟩
  · exact .inl (by decide)
  · exact .inr ⟨c.capacity, rfl⟩
  · exact .inl (by decide)

/-- What is no digit and in no label is in no word. -/
theorem Counts.not_mem_words {x : Char} (hlabels : ∀ label ∈ labels, x ∉ label) (hdigit : x.isDigit = false)
    (c : Counts) : ∀ word ∈ c.words, x ∉ word := by
  intro word hword
  rcases mem_words hword with hlabel | ⟨n, rfl⟩
  · exact hlabels word hlabel
  · exact not_mem_toString hdigit n

theorem Counts.read?_line (c : Counts) : Counts.read? c.line = some c := by
  have hwords : segments (· = ' ') c.line = c.words := by
    refine segments_intercalate (List.cons_ne_nil _ _) ?_ (by decide)
    intro word hword x hx
    have hne : x ≠ ' ' := by
      rintro rfl
      exact c.not_mem_words (by decide) rfl word hword hx
    exact decide_eq_false hne
  unfold Counts.read?
  rw [hwords]
  simp only [Counts.words, labels, decimal?_toString, if_true]

theorem Counts.feed_not_mem_line (c : Counts) : '\n' ∉ c.line := by
  intro hmem
  rcases mem_intercalate hmem with ⟨word, hword, hfeed⟩ | heq
  · exact c.not_mem_words (by decide) rfl word hword hfeed
  · cases heq

/-- The counts of a snapshot. -/
def Counts.ofSnapshot (s : Sequencer.Snapshot) : Counts := ⟨s.length, s.remaining, s.capacity⟩

/-- A header with any first and third line. -/
theorem toList_header (first third : String) (c : Counts) :
    (first ++ "\n" ++ "; program: " ++ toString c.bytes ++ " bytes, " ++ toString c.free ++ " of "
        ++ toString c.capacity ++ " free\n" ++ third ++ "\n\n").toList
      = first.toList ++ '\n' :: (c.line ++ '\n' :: (third.toList ++ ['\n', '\n'])) := by
  have hfeed : "\n".toList = ['\n'] := rfl
  have hprogram : "; program: ".toList = ";".toList ++ ([' '] ++ ("program:".toList ++ [' '])) := rfl
  have hbytes : " bytes, ".toList = [' '] ++ ("bytes,".toList ++ [' ']) := rfl
  have hof : " of ".toList = [' '] ++ ("of".toList ++ [' ']) := rfl
  have hfree : " free\n".toList = [' '] ++ ("free".toList ++ ['\n']) := rfl
  have hlast : "\n\n".toList = ['\n', '\n'] := rfl
  simp only [String.toList_append, Counts.line, Counts.words, List.intercalate_cons_cons,
    List.intercalate_singleton, hfeed, hprogram, hbytes, hof, hfree, hlast, List.append_assoc,
    List.cons_append, List.nil_append]

/-- The header is three lines and an empty one; the second has the counts. -/
theorem listingHeader_lines (s : Sequencer.Snapshot) :
    ∃ first third : List Char, '\n' ∉ first ∧ '\n' ∉ third ∧ (Sequencer.listingHeader s).toList
      = first ++ '\n' :: ((Counts.ofSnapshot s).line ++ '\n' :: (third ++ ['\n', '\n'])) := by
  have hoffset : ∀ n, '\n' ∉ (Hexadecimal.offset n).toList := Hexadecimal.not_mem_upper rfl 4
  have hmode : '\n' ∉ ("; mode: " ++ s.mode.name).toList := by
    cases s.mode <;> decide
  unfold Sequencer.listingHeader
  by_cases hm : s.mode = .commandEntry
  · rw [if_pos hm]
    refine ⟨_, _, hmode, ?_, toList_header _ _ (Counts.ofSnapshot s)⟩
    simp [hoffset]
  · rw [if_neg hm]
    refine ⟨_, _, hmode, ?_, toList_header _ _ (Counts.ofSnapshot s)⟩
    have hdelay := not_mem_toString (c := '\n') rfl s.delay.toNat
    simp only [String.toList_append, List.mem_append, not_or]
    exact ⟨⟨⟨by decide, hoffset _⟩, by decide⟩, hdelay⟩

/-- **The listing of a sequencer is read back.** -/
theorem readState?_listing (s : Sequencer.Snapshot) {rows : List Row}
    (h : ∀ r ∈ rows, '\n' ∉ r.content.toList) :
    readState? (Sequencer.listingHeader s ++ render rows) = some (Counts.ofSnapshot s, rows) := by
  obtain ⟨first, third, hfirst, hthird, hheader⟩ := listingHeader_lines s
  have hline : ∀ {line : List Char}, '\n' ∉ line → ∀ x ∈ line, decide (x = '\n') = false := by
    intro line hnot x hx
    refine decide_eq_false ?_
    rintro rfl
    exact hnot hx
  -- nothing stands between the last two line feeds of the header
  have hblank : segments (· = '\n') ([] ++ '\n' :: (render rows).toList)
      = [] :: (rows.map Row.line ++ [[]]) := by
    rw [segments_append_cons (hline List.not_mem_nil) (by decide), segments_render h]
  have hlines : segments (· = '\n') (Sequencer.listingHeader s ++ render rows).toList
      = first :: (Counts.ofSnapshot s).line :: third :: [] :: (rows.map Row.line ++ [[]]) := by
    rw [String.toList_append, hheader]
    simp only [List.append_assoc, List.cons_append, List.nil_append]
    rw [segments_append_cons (hline hfirst) (by decide),
      segments_append_cons (hline (Counts.feed_not_mem_line _)) (by decide),
      segments_append_cons (hline hthird) (by decide), ← hblank]
    rfl
  unfold readState?
  rw [hlines]
  simp only [List.getLast?_concat, List.dropLast_concat, mapM_read?_line, Counts.read?_line, if_true]

end Listing

/-! ## Places of a program -/

namespace Program

/-- The places where playback can stand: the offsets of the instructions, counted from `start`, and the
end. -/
def places (start : Nat) (p : List Instruction) : List Nat :=
  (located start p).map (·.1) ++ [start + size p]

theorem places_cons (start : Nat) (i : Instruction) (p : List Instruction) :
    places start (i :: p) = start :: places (start + i.size) p := by
  simp [places, located, Nat.add_assoc]

theorem le_of_mem_places {start o : Nat} {p : List Instruction} (h : o ∈ places start p) : start ≤ o := by
  induction p generalizing start with
  | nil =>
    rcases List.mem_singleton.mp h with rfl
    exact Nat.le_refl _
  | cons i p ih =>
    rw [places_cons] at h
    rcases List.mem_cons.mp h with rfl | hlater
    · exact Nat.le_refl o
    · have hle := ih hlater
      omega

/-- No two places have the same offset, since every instruction takes a byte. -/
theorem nodup_places (start : Nat) (p : List Instruction) : (places start p).Nodup := by
  induction p generalizing start with
  | nil => exact List.pairwise_singleton _ _
  | cons i p ih =>
    rw [places_cons, List.nodup_cons]
    refine ⟨?_, ih (start + i.size)⟩
    intro hmem
    have hle := le_of_mem_places hmem
    have hpos := i.size_pos
    omega

theorem offset_mem_places {p : List Instruction} {n : Nat} (h : n ≤ p.length) :
    offset p n ∈ places 0 p := by
  rcases Nat.lt_or_eq_of_le h with hlt | rfl
  · apply List.mem_append_left
    exact List.mem_map.mpr ⟨_, mem_located (List.getElem?_eq_getElem hlt), rfl⟩
  · apply List.mem_append_right
    rw [offset_length, Nat.zero_add]
    exact List.mem_singleton_self _

/-- A place is found once. -/
theorem filter_places {start o : Nat} {p : List Instruction} (h : o ∈ places start p) :
    (places start p).filter (· = o) = [o] := by
  rw [List.filter_eq, (nodup_places start p).count, if_pos h]
  rfl

end Program

/-! ## What a listing tells -/

/-- The listing of a sequencer, read as text, tells its program and where it stands: `counts` are those of
the header, `steps` the rows of the instructions, and `final` is the row after them. -/
structure Sequencer.Listed (s : Sequencer) (counts : Listing.Counts) (steps : List Listing.Row)
    (final : Listing.Row) : Prop where
  read_back : Listing.readState? s.listing = some (counts, steps ++ [final])
  /-- What the rows show is a program text for the program. -/
  assembled : Assembly.assemble (Text.ofString (String.intercalate "\n" (steps.map (·.content))))
    = .ok s.program
  /-- One row is marked, and it lies where playback stands. -/
  marked : s.snapshot.mode ≠ .commandEntry →
    ((steps ++ [final]).filter (·.marked)).map (·.offset) = [s.snapshot.playCursor]
  unmarked : s.snapshot.mode = .commandEntry → ∀ row ∈ steps ++ [final], row.marked = false
  appending : s.snapshot.mode = .commandEntry →
    final.content = "<append>" ∧ final.offset = s.snapshot.appendCursor
  ended : s.snapshot.mode ≠ .commandEntry →
    (final.content = "END" ↔ s.snapshot.length < s.snapshot.capacity)
  full : s.snapshot.mode ≠ .commandEntry →
    (final.content = "<end of buffer>" ↔ s.snapshot.length = s.snapshot.capacity)
  final_offset : final.offset = s.snapshot.length
  counted : counts = .ofSnapshot s.snapshot
  balanced : counts.bytes + counts.free = counts.capacity

namespace Sequencer

/-- Rows are marked by their offset. -/
theorem marked_listingRows {s : Sequencer} {row : Listing.Row} (h : row ∈ s.listingRows) :
    row.marked = decide (s.mark? = some row.offset) := by
  rcases List.mem_append.mp h with hstep | hfinal
  · obtain ⟨step, rfl⟩ := Listing.exists_step_of_mem_rows hstep
    rfl
  · rcases List.mem_singleton.mp hfinal with rfl
    rfl

/-- The three contents of a final row. -/
theorem content_finalRow (s : Sequencer) :
    s.finalRow.content = if s.mode = .commandEntry then "<append>"
      else if s.finalRow.offset < s.store.capacity then "END" else "<end of buffer>" := rfl

/-- No row of a listing is broken by a line feed. -/
theorem feed_not_mem_listingRows {s : Sequencer} {row : Listing.Row} (h : row ∈ s.listingRows) :
    '\n' ∉ row.content.toList := by
  rcases List.mem_append.mp h with hstep | hfinal
  · exact Listing.feed_not_mem_rows hstep
  · rcases List.mem_singleton.mp hfinal with rfl
    rw [content_finalRow]
    split
    · decide
    · split <;> decide

end Sequencer

namespace Realizes

variable {s : Sequencer} {a : Ideal}

theorem scan_program (h : Realizes s a) : scan s.program = ⟨located 0 a.program, size a.program, []⟩ := by
  rw [h.program_eq, scan_encode]

theorem offset_finalRow (h : Realizes s a) : s.finalRow.offset = size a.program := by
  show Listing.stop s.program s.mark? = size a.program
  rw [Listing.stop_eq_scan, h.scan_program]

/-- Outside command entry the final row says whether there is room behind the program. -/
theorem content_finalRow (h : Realizes s a) (hm : a.mode ≠ .commandEntry) :
    s.finalRow.content = if size a.program < a.capacity then "END" else "<end of buffer>" := by
  rw [Sequencer.content_finalRow, if_neg (h.mode ▸ hm), h.offset_finalRow, h.capacity]

/-- What the rows of the instructions show is their text. -/
theorem content_rows (h : Realizes s a) :
    (Listing.rows s.program s.mark?).map (·.content) = a.program.map Instruction.text := by
  rw [Listing.rows_eq_scan, h.scan_program, map_content_stepRow]

/-- There is a row at every place of the program. -/
theorem offset_listingRows (h : Realizes s a) : s.listingRows.map (·.offset) = places 0 a.program := by
  unfold Sequencer.listingRows places
  rw [Listing.rows_eq_scan, List.map_append, List.map_map, h.scan_program, Nat.zero_add, ← h.offset_finalRow]
  rfl

theorem mark?_eq (h : Realizes s a) (hm : a.mode ≠ .commandEntry) :
    s.mark? = some (offset a.program a.next) := by
  unfold Sequencer.mark?
  rw [if_neg (h.mode ▸ hm), h.position]

/-- The marked rows lie at the marked place. -/
theorem offset_marked (h : Realizes s a) (hm : a.mode ≠ .commandEntry) :
    (s.listingRows.filter (·.marked)).map (·.offset) = [offset a.program a.next] := by
  have hmarked : s.listingRows.filter (·.marked)
      = s.listingRows.filter fun row => row.offset = offset a.program a.next := by
    refine List.filter_congr ?_
    intro row hrow
    rw [Sequencer.marked_listingRows hrow, h.mark?_eq hm]
    simp only [Option.some.injEq, eq_comm]
  calc (s.listingRows.filter (·.marked)).map (·.offset)
      = (s.listingRows.map (·.offset)).filter (· = offset a.program a.next) := by
        rw [hmarked, List.filter_map]
        rfl
    _ = [offset a.program a.next] := by
        rw [h.offset_listingRows]
        exact filter_places (offset_mem_places a.next_le)

/-- The listing of a state that realizes an ideal one. -/
theorem listed (h : Realizes s a) :
    s.Listed (.ofSnapshot s.snapshot) (Listing.rows s.program s.mark?) s.finalRow where
  read_back := Listing.readState?_listing s.snapshot fun row hrow => Sequencer.feed_not_mem_listingRows hrow
  assembled := by
    rw [h.content_rows, Assembly.assemble_texts, h.program_eq]
  marked := by
    rw [h.snapshot_eq]
    exact h.offset_marked
  unmarked := by
    intro hm row hrow
    have hentry : s.mode = .commandEntry := hm
    rw [Sequencer.marked_listingRows hrow, Sequencer.mark?, if_pos hentry]
    rfl
  appending := by
    intro hm
    have hentry : s.mode = .commandEntry := hm
    refine ⟨?_, ?_⟩
    · rw [Sequencer.content_finalRow, if_pos hentry]
    · show s.finalRow.offset = s.appendCursor
      rw [h.offset_finalRow, h.appendCursor, a.aligned (h.mode ▸ hentry)]
  ended := by
    rw [h.snapshot_eq]
    intro hm
    rw [h.content_finalRow hm]
    by_cases hlt : size a.program < a.capacity
    · rw [if_pos hlt]
      exact ⟨fun _ => hlt, fun _ => rfl⟩
    · rw [if_neg hlt]
      exact ⟨fun heq => absurd heq (by decide), fun h => absurd h hlt⟩
  full := by
    rw [h.snapshot_eq]
    intro hm
    rw [h.content_finalRow hm]
    by_cases hlt : size a.program < a.capacity
    · rw [if_pos hlt]
      exact ⟨fun heq => absurd heq (by decide), fun heq => absurd heq (Nat.ne_of_lt hlt)⟩
    · rw [if_neg hlt]
      exact ⟨fun _ => Nat.le_antisymm a.fits (Nat.le_of_not_lt hlt), fun _ => rfl⟩
  final_offset := by
    rw [h.offset_finalRow, h.snapshot_eq]
  counted := rfl
  balanced := by
    rw [h.snapshot_eq]
    exact Nat.add_sub_cancel' a.fits

end Realizes

/-- **Listings are faithful.** In every state that an orderly run reaches, the listing shows the program and
marks the place of playback, names the append cursor in command entry, and says whether the buffer is
full; its counts add up. -/
theorem listing_faithful {s : Sequencer} (h : s.Reached) :
    ∃ counts steps final, s.Listed counts steps final := by
  obtain ⟨a, ha⟩ := h.exists_ideal
  exact ⟨_, _, _, ha.listed⟩

/-- A delay in a full buffer has just begun: the row after it is marked, and there is no room for an end. -/
theorem listing_of_full_buffer_faithful :
    ∃ s : Sequencer, s.Reached ∧ ∃ counts steps final, s.Listed counts steps final
      ∧ ((steps ++ [final]).filter (·.marked)).map (·.offset) = [2]
      ∧ final.content = "<end of buffer>" ∧ counts = ⟨6, 0, 6⟩ := by
  have hnew := @new_encode
    { leds := 3, capacity := 6, maxSteps := 1, policy := .reject, code := encode [.delay 9, .all 1 2 3] }
    [.delay 9, .all 1 2 3] rfl (by decide)
  have hreached : Sequencer.Reached _ := ⟨_, _, [.start, .tick], hnew, by decide, rfl⟩
  obtain ⟨counts, steps, final, h⟩ := listing_faithful hreached
  refine ⟨_, hreached, counts, steps, final, h, ?_, ?_, ?_⟩
  · exact h.marked (by decide)
  · exact (h.full (by decide)).mpr (by decide)
  · exact h.counted

end StripSequencer
