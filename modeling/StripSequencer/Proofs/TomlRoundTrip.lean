import StripSequencer.Proofs.TextBytes
import StripSequencer.Proofs.TomlValues
import StripSequencer.Toml.Document

/-!
# `StripSequencer.Proofs.TomlRoundTrip` — written files are read back

The writer puts every table and every entry on a line of its own, with nothing but blanks and empty lines between them.
The reader takes the statements off the text one by one, and the tables are built from them in order. Where names and
keys need no quotes and none occurs twice, the tables that are built are those that were written.

## Contents
- `readPart_bare`, `readKey_bare`: names and keys; `skipAll_gap_append`: what is skipped before a statement.
- `Line`, `Line.readStatement_eq`; `Spells`, `Spells.readStatements_eq`: lines and texts that spell statements.
- `spells_fileText`, `statementsOfBytes?_fileText`: written files spell their statements.
- `Builder.run?_entries`, `Builder.run?_tables`: the tables that are built from them.
- `document?_fileText`: all together.
-/

namespace StripSequencer.Toml

/-! ## Names -/

/-- A name that needs no quotes. -/
def isBareName (name : String) : Bool := !name.toList.isEmpty && name.toList.all isBareChar

theorem isShown_of_isBareChar {c : Char} (h : isBareChar c = true) : isShown c = true := by
  have hall : ∀ n < 128, isShown (Char.ofNat n) = false → isBareChar (Char.ofNat n) = false := by decide
  cases hshown : isShown c with
  | true => rfl
  | false =>
    have hsmall : c.toNat < 128 := by
      simp only [isShown, Bool.and_eq_false_iff, decide_eq_false_iff_not] at hshown
      omega
    have hbare := hall c.toNat hsmall
    rw [Char.ofNat_toNat, h] at hbare
    cases hbare hshown

theorem isBlank_of_isBareChar {c : Char} (h : isBareChar c = true) : isBlank c = false := by
  have hspace : c ≠ ' ' := ne_of_test h (by decide)
  have htab : c ≠ '\t' := ne_of_test h (by decide)
  simp [isBlank, hspace, htab]

section Bare

variable {name : String} {rest : List Char}

theorem isBareChar_of_mem (h : isBareName name = true) : ∀ c ∈ name.toList, isBareChar c = true := by
  simp only [isBareName, Bool.and_eq_true, List.all_eq_true] at h
  exact h.2

theorem exists_bareChar (h : isBareName name = true) : ∃ c cs, name.toList = c :: cs ∧ isBareChar c = true := by
  have hne : name.toList ≠ [] := by
    simp only [isBareName, Bool.and_eq_true, Bool.not_eq_true', List.isEmpty_eq_false_iff] at h
    exact h.1
  obtain ⟨c, cs, hlist⟩ := List.exists_cons_of_ne_nil hne
  exact ⟨c, cs, hlist, isBareChar_of_mem h c (by rw [hlist]; exact List.mem_cons_self)⟩

/-- A name does not begin with a quote or a bracket. -/
theorem bare_append_ne (h : isBareName name = true) {d : Char} (hd : isBareChar d = false) (tail : List Char) :
    name.toList ++ rest ≠ d :: tail := by
  obtain ⟨c, cs, hlist, hc⟩ := exists_bareChar h
  rw [hlist]
  intro heq
  exact ne_of_test hc hd (List.cons.inj heq).1

theorem readPart_bare (h : isBareName name = true) (hrest : ∀ c ∈ rest.head?, isBareChar c = false) :
    readPart (name.toList ++ rest) = some (name, rest) := by
  obtain ⟨c, cs, hlist, -⟩ := exists_bareChar h
  have hbare := isBareChar_of_mem h
  have hne : ¬ name.toList.isEmpty = true := by simp [hlist]
  have hpart : readPart (name.toList ++ rest)
      = if name.toList.isEmpty then none else some (String.ofList name.toList, rest) := by
    unfold readPart
    rw [takeWhile_run hbare hrest, dropWhile_run hbare hrest]
    split
    · next heq => exact absurd heq (bare_append_ne h (by decide) _)
    · next heq => exact absurd heq (bare_append_ne h (by decide) _)
    · rfl
  rw [hpart, if_neg hne, String.ofList_toList]

/-- A name is read as a key of one part, if the character that ends keys follows it. -/
theorem readKey_bare (h : isBareName name = true) {tail : List Char} {close : Char}
    (htail : ∀ c ∈ tail.head?, isBareChar c = false) (hclose : skipBlanks tail = close :: rest) (hpoint : close ≠ '.') :
    readKey close (name.toList ++ tail) = some ([name], rest) := by
  obtain ⟨c, cs, hlist, hc⟩ := exists_bareChar h
  have hskip : skipBlanks (name.toList ++ tail) = name.toList ++ tail := by
    rw [hlist]
    exact skipBlanks_cons (isBlank_of_isBareChar hc) _
  obtain ⟨fuel, hfuel⟩ : ∃ fuel, (name.toList ++ tail).length = fuel + 1 := ⟨(cs ++ tail).length, by rw [hlist]; rfl⟩
  unfold readKey
  rw [hfuel, readParts, hskip, readPart_bare h htail]
  simp [hclose]

end Bare

/-! ## Gaps -/

/-- Blanks and line feeds. -/
def IsGap (gap : List Char) : Prop := ∀ c ∈ gap, c = ' ' ∨ c = '\n'

theorem IsGap.nil : IsGap [] := List.forall_mem_nil _

theorem IsGap.blank {gap : List Char} (h : IsGap gap) : IsGap (' ' :: gap) := List.forall_mem_cons.mpr ⟨.inl rfl, h⟩

theorem IsGap.feed {gap : List Char} (h : IsGap gap) : IsGap ('\n' :: gap) := List.forall_mem_cons.mpr ⟨.inr rfl, h⟩

theorem IsGap.skipped {gap : List Char} (h : IsGap gap) : ∀ c ∈ gap, (isBlank c || isNewline c) = true := by
  intro c hc
  rcases h c hc with rfl | rfl <;> rfl

theorem skipAll_gap {gap : List Char} (h : IsGap gap) : skipAll gap = [] := by
  have hdrop : gap.dropWhile (fun c => isBlank c || isNewline c) = [] := by
    have hrun := @dropWhile_run Char _ gap [] h.skipped (by simp)
    rwa [List.append_nil] at hrun
  unfold skipAll
  cases gap with
  | nil => rfl
  | cons c gap =>
    rw [List.length_cons, skipLines, hdrop]

/-- A gap ends where a statement begins. -/
theorem skipAll_gap_append {gap : List Char} (h : IsGap gap) {c : Char} (hc : (isBlank c || isNewline c) = false)
    (hcomment : c ≠ '#') (rest : List Char) : skipAll (gap ++ c :: rest) = c :: rest := by
  have hdrop : (gap ++ c :: rest).dropWhile (fun c => isBlank c || isNewline c) = c :: rest := by
    apply dropWhile_run h.skipped
    rintro d ⟨⟩
    exact hc
  obtain ⟨fuel, hfuel⟩ : ∃ fuel, (gap ++ c :: rest).length = fuel + 1 := ⟨gap.length + rest.length, by simp; omega⟩
  unfold skipAll
  rw [hfuel, skipLines, hdrop]
  simp [hcomment]

/-! ## Statements -/

theorem readEnd_line (rest : List Char) : readEnd ('\n' :: rest) = some ('\n' :: rest) := rfl

/-- A line that spells a statement. -/
inductive Line : List Char → Statement → Prop where
  | table {name : String} (h : isBareName name = true) : Line ('[' :: (name.toList ++ [']'])) (.table [name])
  | entry {key : String} (h : isBareName key = true) (value : Plain) :
      Line (key.toList ++ ' ' :: '=' :: ' ' :: value.text.chars) (.entry [key] value.value)

namespace Line

variable {line : List Char} {statement : Statement}

/-- **A statement is read** up to the end of its line. -/
theorem readStatement_eq (h : Line line statement) (rest : List Char) :
    readStatement (line ++ '\n' :: rest) = some (statement, '\n' :: rest) := by
  cases h with
  | @table name h =>
    have hkey := @readKey_bare name ('\n' :: rest) h (']' :: '\n' :: rest) ']'
      (by rintro d ⟨⟩; decide) rfl (by decide)
    rw [List.cons_append, List.append_assoc, List.singleton_append, readStatement, hkey]
    · rfl
    · exact bare_append_ne h (by decide)
  | @entry key h value =>
    have hkey := @readKey_bare key (' ' :: (value.text.chars ++ '\n' :: rest)) h
      (' ' :: '=' :: ' ' :: (value.text.chars ++ '\n' :: rest)) '=' (by rintro d ⟨⟩; decide) rfl (by decide)
    rw [List.append_assoc, List.cons_append, List.cons_append, List.cons_append, readStatement, hkey]
    · simp [readValue_text, readEnd_line]
    · exact fun _ => bare_append_ne h (by decide) _
    · exact bare_append_ne h (by decide)

/-- A line begins with neither a gap nor a comment. -/
theorem exists_head (h : Line line statement) :
    ∃ c cs, line = c :: cs ∧ (isBlank c || isNewline c) = false ∧ c ≠ '#' := by
  cases h with
  | table _ => exact ⟨'[', _, rfl, by decide, by decide⟩
  | @entry key h value =>
    obtain ⟨c, cs, hlist, hc⟩ := exists_bareChar h
    refine ⟨c, _, by rw [hlist]; rfl, ?_, ne_of_test hc (by decide)⟩
    rw [isBlank_of_isBareChar hc, isNewline_of_isShown (isShown_of_isBareChar hc)]
    rfl

theorem isShown_of_mem (h : Line line statement) {c : Char} (hc : c ∈ line) : isShown c = true := by
  cases h with
  | @table name h =>
    simp only [List.mem_cons, List.mem_append, List.not_mem_nil, or_false] at hc
    rcases hc with rfl | hc | rfl
    · rfl
    · exact isShown_of_isBareChar (isBareChar_of_mem h c hc)
    · rfl
  | @entry key h value =>
    simp only [List.mem_cons, List.mem_append] at hc
    rcases hc with hc | rfl | rfl | rfl | hc
    · exact isShown_of_isBareChar (isBareChar_of_mem h c hc)
    · rfl
    · rfl
    · rfl
    · exact Plain.isShown_of_mem hc

end Line

/-- The characters spell statements, each on a line of its own after a gap. What follows a line begins with the line
feed that ends it. -/
inductive Spells : List Char → List Statement → Prop where
  | done {gap : List Char} (hgap : IsGap gap) : Spells gap []
  | line {gap line rest : List Char} {statement : Statement} {statements : List Statement} (hgap : IsGap gap)
      (hline : Line line statement) (hrest : Spells ('\n' :: rest) statements) :
      Spells (gap ++ (line ++ '\n' :: rest)) (statement :: statements)

namespace Spells

variable {cs : List Char} {statements : List Statement}

/-- **Statements are read** in order. -/
theorem readStatements_eq (h : Spells cs statements) {fuel : Nat} (hfuel : statements.length < fuel)
    (seen : List Statement) : readStatements fuel seen cs = some (seen.reverse ++ statements) := by
  -- the last line leaves a gap, and the reader takes one step more to find that nothing follows
  induction h generalizing fuel seen with
  | done hgap =>
    obtain ⟨fuel, rfl⟩ := Nat.exists_eq_succ_of_ne_zero (Nat.ne_of_gt hfuel)
    rw [readStatements, skipAll_gap hgap, List.append_nil]
  | @line gap line rest statement statements hgap hline hrest ih =>
    obtain ⟨fuel, rfl⟩ : ∃ k, fuel = k + 1 := ⟨fuel - 1, by rw [List.length_cons] at hfuel; omega⟩
    obtain ⟨c, cs, hhead, hsolid, hcomment⟩ := hline.exists_head
    have hread := hline.readStatement_eq rest
    rw [hhead] at hread
    rw [readStatements, hhead, List.cons_append, skipAll_gap_append hgap hsolid hcomment]
    dsimp only
    rw [← List.cons_append, hread]
    have hothers := @ih fuel (by simpa using hfuel) (statement :: seen)
    simpa using hothers

/-- Every statement takes a character. -/
theorem length_le (h : Spells cs statements) : statements.length ≤ cs.length := by
  induction h with
  | done _ => exact Nat.zero_le _
  | @line gap line rest statement statements _ hline _ ih =>
    obtain ⟨c, cs, rfl, -, -⟩ := hline.exists_head
    simp only [List.length_append, List.length_cons] at ih ⊢
    omega

/-- Line feeds are the only control characters. -/
theorem isShown_of_mem (h : Spells cs statements) {c : Char} (hc : c ∈ cs) : isShown c = true ∨ c = '\n' := by
  have hgaps : ∀ {gap : List Char}, IsGap gap → c ∈ gap → isShown c = true ∨ c = '\n' := by
    intro gap hgap hc
    rcases hgap c hc with rfl | rfl
    · exact .inl rfl
    · exact .inr rfl
  induction h with
  | done hgap => exact hgaps hgap hc
  | line hgap hline _ ih =>
    rcases List.mem_append.mp hc with hc | hc
    · exact hgaps hgap hc
    · rcases List.mem_append.mp hc with hc | hc
      · exact .inl (hline.isShown_of_mem hc)
      · exact ih hc

end Spells

/-! ## Files -/

/-- Tables with the entries of each. -/
abbrev Tables := List (String × List (String × Plain))

/-- Names and keys need no quotes. -/
def Tables.Bare (tables : Tables) : Prop :=
  ∀ table ∈ tables, isBareName table.1 = true ∧ ∀ entry ∈ table.2, isBareName entry.1 = true

/-- The statements of a table. -/
def tableStatements (table : String × List (String × Plain)) : List Statement :=
  .table [table.1] :: table.2.map fun (key, value) => .entry [key] value.value

theorem chars_entryLine (key : String) (value : Plain) :
    (entryLine key value).chars = ' ' :: ' ' :: (key.toList ++ ' ' :: '=' :: ' ' :: value.text.chars ++ ['\n']) := by
  simp [entryLine]

theorem chars_tableText (name : String) (entries : List (String × Plain)) :
    (tableText name entries).chars
      = '[' :: (name.toList ++ [']']) ++ '\n' :: entries.flatMap fun (key, value) => (entryLine key value).chars := by
  simp [tableText, Text.chars_flatMap]

/-- The line feed before entries ends the line before them. -/
theorem Spells.entries {entries : List (String × Plain)} (h : ∀ entry ∈ entries, isBareName entry.1 = true)
    {rest : List Char} {statements : List Statement} (hrest : Spells ('\n' :: rest) statements) :
    Spells ('\n' :: ((entries.flatMap fun (key, value) => (entryLine key value).chars) ++ rest))
      ((entries.map fun (key, value) => .entry [key] value.value) ++ statements) := by
  induction entries with
  | nil => exact hrest
  | cons entry entries ih =>
    obtain ⟨key, value⟩ := entry
    obtain ⟨hkey, hkeys⟩ := List.forall_mem_cons.mp h
    have hgap : IsGap ['\n', ' ', ' '] := IsGap.nil.blank.blank.feed
    have hline := Spells.line hgap (Line.entry hkey value) (ih hkeys)
    simpa [chars_entryLine] using hline

theorem Spells.table {table : String × List (String × Plain)} (hname : isBareName table.1 = true)
    (hkeys : ∀ entry ∈ table.2, isBareName entry.1 = true) {gap rest : List Char} {statements : List Statement}
    (hgap : IsGap gap) (hrest : Spells ('\n' :: rest) statements) :
    Spells (gap ++ ((tableText table.1 table.2).chars ++ rest)) (tableStatements table ++ statements) := by
  have hline := Spells.line hgap (Line.table hname) (hrest.entries hkeys)
  simpa [chars_tableText, tableStatements] using hline

theorem fileText_singleton (table : String × List (String × Plain)) : fileText [table] = tableText table.1 table.2 := by
  simp [fileText]

theorem fileText_cons_cons (table next : String × List (String × Plain)) (tables : Tables) :
    fileText (table :: next :: tables) = tableText table.1 table.2 ++ .char '\n' :: fileText (next :: tables) := by
  unfold fileText
  rw [List.map_cons, List.map_cons, List.intercalate_cons_cons, List.append_assoc, List.singleton_append]

/-- **The text of a file spells its statements.** -/
theorem spells_fileText {tables : Tables} (h : tables.Bare) {gap : List Char} (hgap : IsGap gap) :
    Spells (gap ++ (fileText tables).chars) (tables.flatMap tableStatements) := by
  -- on the tables; the gap before the first is empty, and before the others the line feed between two tables
  induction tables generalizing gap with
  | nil =>
    refine .done ?_
    simpa [fileText] using hgap
  | cons table tables ih =>
    obtain ⟨⟨hname, hkeys⟩, hothers⟩ := List.forall_mem_cons.mp h
    cases tables with
    | nil =>
      have hend : Spells ['\n'] [] := .done IsGap.nil.feed
      have htable := Spells.table hname hkeys hgap hend
      simpa [fileText_singleton] using htable
    | cons next tables =>
      have hfeeds : IsGap ['\n', '\n'] := IsGap.nil.feed.feed
      have htable := Spells.table hname hkeys hgap (ih hothers hfeeds)
      rw [fileText_cons_cons, Text.chars_append, Text.chars_char_cons]
      exact htable

theorem isForbidden_of_isShown {c : Char} (h : isShown c = true) : isForbidden c = false := by
  simp only [isShown, Bool.and_eq_true, decide_eq_true_eq] at h
  have hlow : ¬ c.toNat < 0x20 := by omega
  simp [isForbidden, hlow, h.2]

theorem charactersOk_of_isShown {cs : List Char} (h : ∀ c ∈ cs, isShown c = true ∨ c = '\n') :
    charactersOk cs = true := by
  induction cs with
  | nil => rfl
  | cons c cs ih =>
    obtain ⟨hc, hcs⟩ := List.forall_mem_cons.mp h
    have hreturn : c ≠ '\r' := by
      rintro rfl
      rcases hc with hc | hc <;> cases hc
    have hallowed : isForbidden c = false := by
      rcases hc with hc | rfl
      · exact isForbidden_of_isShown hc
      · rfl
    rw [charactersOk, hallowed, ih hcs]
    · simp [hreturn]
    · exact fun _ heq _ => hreturn heq

/-- **The statements of a written text are read.** -/
theorem statements?_fileText {tables : Tables} (h : tables.Bare) :
    statements? (String.ofList (fileText tables).chars) = some (tables.flatMap tableStatements) := by
  have hspells := spells_fileText h IsGap.nil
  rw [List.nil_append] at hspells
  unfold statements?
  rw [String.toList_ofList, String.length_ofList,
    if_pos (charactersOk_of_isShown fun c hc => hspells.isShown_of_mem hc),
    hspells.readStatements_eq (Nat.lt_succ_of_le hspells.length_le)]
  rfl

/-! ## Bytes -/

/-- A string has no stray byte. -/
def Plain.IsUnicode : Plain → Prop
  | .string t => t.IsUnicode
  | .integer _ => True

/-- No string has a stray byte. -/
def Tables.IsUnicode (tables : Tables) : Prop := ∀ table ∈ tables, ∀ entry ∈ table.2, entry.2.IsUnicode

theorem Plain.isUnicode_text {value : Plain} (h : value.IsUnicode) : value.text.IsUnicode := by
  cases value with
  | string t =>
    have hinside : Text.IsUnicode (t.flatMap escapedGlyph) := by
      apply Text.IsUnicode.flatMap
      intro g hg
      obtain ⟨c, rfl⟩ := h g hg
      exact Text.isUnicode_ofString _
    exact (Text.isUnicode_char _).append (hinside.append (Text.isUnicode_char _))
  | integer n => exact Text.isUnicode_ofString _

theorem isUnicode_tableText {name : String} {entries : List (String × Plain)}
    (h : ∀ entry ∈ entries, entry.2.IsUnicode) : (tableText name entries).IsUnicode := by
  refine (Text.isUnicode_ofString _).append (Text.IsUnicode.flatMap ?_)
  intro entry hentry
  have htext := Plain.isUnicode_text (h entry hentry)
  exact ((Text.isUnicode_ofString _).append htext).append (Text.isUnicode_char _)

theorem isUnicode_fileText {tables : Tables} (h : tables.IsUnicode) : (fileText tables).IsUnicode := by
  intro g hg
  rcases mem_intercalate hg with ⟨text, htext, hg⟩ | rfl
  · obtain ⟨table, htable, rfl⟩ := List.mem_map.mp htext
    exact isUnicode_tableText (h table htable) g hg
  · exact ⟨_, rfl⟩

theorem exists_tableText_eq (name : String) (entries : List (String × Plain)) :
    ∃ rest : Text, tableText name entries = .char '[' :: rest := by
  have hname : Text.ofString ("[" ++ name ++ "]\n") = .char '[' :: Text.ofString (name ++ "]\n") := by
    simp [Text.ofString]
  exact ⟨_, by rw [tableText, hname]; rfl⟩

/-- A written file begins with a bracket, if it is not empty, and so with no mark of a byte order. -/
theorem dropMark_fileText (tables : Tables) : dropMark (fileText tables).bytes = (fileText tables).bytes := by
  cases tables with
  | nil => rfl
  | cons table tables =>
    obtain ⟨rest, hrest⟩ : ∃ rest : Text, fileText (table :: tables) = .char '[' :: rest := by
      obtain ⟨rest, htable⟩ := exists_tableText_eq table.1 table.2
      cases tables with
      | nil => exact ⟨_, by rw [fileText_singleton, htable]⟩
      | cons next tables => exact ⟨_, by rw [fileText_cons_cons, htable]; rfl⟩
    have hbytes : (fileText (table :: tables)).bytes = 0x5B :: rest.bytes := by
      rw [hrest]
      rfl
    rw [hbytes]
    rfl

/-- **The statements of a written file are read.** -/
theorem statementsOfBytes?_fileText {tables : Tables} (h : tables.Bare) (hunicode : tables.IsUnicode) :
    statementsOfBytes? (fileText tables).bytes = some (tables.flatMap tableStatements) := by
  unfold statementsOfBytes?
  rw [dropMark_fileText, (isUnicode_fileText hunicode).toString?_bytes, Option.bind_some, statements?_fileText h]

/-! ## Tables -/

/-- The scalar that a plain value is kept as. -/
def Plain.scalar : Plain → Scalar
  | .string t => .string (String.ofList t.chars)
  | .integer n => .integer n

/-- The members of a table. -/
def members (entries : List (String × Plain)) : Members :=
  entries.map fun (key, value) => (key, .scalar value.scalar)

/-- The tables as members of the top table. -/
def document (tables : Tables) : Members := tables.map fun (name, entries) => (name, .table (members entries))

section Members

variable {done : Members} {name : String}

theorem ne_of_mem {member : String × Node} (h : name ∉ done.map Prod.fst) (hmember : member ∈ done) :
    member.1 ≠ name := by
  rintro rfl
  exact h (List.mem_map_of_mem hmember)

theorem lookup_fresh (h : name ∉ done.map Prod.fst) : done.lookup name = none := by
  apply List.lookup_eq_none_iff.mpr
  intro member hmember
  exact bne_iff_ne.mpr (ne_of_mem h hmember).symm

theorem lookup_last (h : name ∉ done.map Prod.fst) (node : Node) :
    (done ++ [(name, node)]).lookup name = some node := by
  rw [List.lookup_append, lookup_fresh h, Option.none_or, List.lookup_cons_self]

theorem setMember_fresh (h : name ∉ done.map Prod.fst) (node : Node) :
    setMember done name node = done ++ [(name, node)] := by
  have hnone : done.any (·.1 = name) = false := by
    apply List.any_eq_false.mpr
    intro member hmember
    simpa using ne_of_mem h hmember
  unfold setMember
  rw [hnone]
  rfl

theorem setMember_last (h : name ∉ done.map Prod.fst) (old node : Node) :
    setMember (done ++ [(name, old)]) name node = done ++ [(name, node)] := by
  have hsome : (done ++ [(name, old)]).any (·.1 = name) = true := by simp
  have hkept : ∀ f : String × Node → String × Node, (∀ member ∈ done, f member = member) → done.map f = done := by
    intro f hf
    rw [List.map_congr_left hf, List.map_id']
  unfold setMember
  rw [hsome, if_pos rfl, List.map_append, hkept]
  · simp
  · intro member hmember
    simp [ne_of_mem h hmember]

end Members

namespace Builder

variable {done ms : Members} {name key : String}

/-- A new table is opened behind the others. -/
theorem openTable?_fresh (h : name ∉ done.map Prod.fst) :
    ({ root := done } : Builder).openTable? [name] = some { root := done ++ [(name, .table [])] } := by
  have hfind : find? done [name] = none := lookup_fresh h
  have hput : Toml.put? done [name] (.table []) = some (done ++ [(name, .table [])]) :=
    congrArg some (setMember_fresh h _)
  simp [openTable?, parents, supply?, set?, hfind, put?, hput]

theorem value?_plain (key : Key) (b : Builder) (value : Plain) :
    value? key false b value.value = some (b, .scalar value.scalar) := by
  cases value <;> rfl

/-- A new key is given its value behind the others of the table that was opened last. -/
theorem entries?_fresh (hname : name ∉ done.map Prod.fst) (hkey : key ∉ ms.map Prod.fst) (value : Plain) :
    entries? [name] { root := done ++ [(name, .table ms)] } [([key], value.value)]
      = some { root := done ++ [(name, .table (ms ++ [(key, .scalar value.scalar)]))] } := by
  have hfind : find? (done ++ [(name, .table ms)]) [name, key] = none := by
    simp [find?, lookup_last hname, Node.members?, lookup_fresh hkey]
  have hput : Toml.put? (done ++ [(name, .table ms)]) [name, key] (.scalar value.scalar)
      = some (done ++ [(name, .table (ms ++ [(key, .scalar value.scalar)]))]) := by
    simp [Toml.put?, lookup_last hname, Node.members?, Node.withMembers, setMember_fresh hkey, setMember_last hname]
  have hset : ({ root := done ++ [(name, .table ms)] } : Builder).set? [name, key] (.scalar value.scalar)
      = some { root := done ++ [(name, .table (ms ++ [(key, .scalar value.scalar)]))] } := by
    simp [set?, hfind, put?, hput]
  simp only [entries?, pass?, value?_plain, List.singleton_append, Option.bind_eq_bind, Option.bind_some, hset]
  cases value <;> rfl

/-- **The entries of a table are put into it** in order. -/
theorem run?_entries {entries : List (String × Plain)} (hname : name ∉ done.map Prod.fst)
    (hkeys : (ms.map Prod.fst ++ entries.map Prod.fst).Nodup) (statements : List Statement) :
    run? { root := done ++ [(name, .table ms)] } [name]
        ((entries.map fun (key, value) => .entry [key] value.value) ++ statements)
      = run? { root := done ++ [(name, .table (ms ++ members entries))] } [name] statements := by
  -- `ms` are the members that the table has from the entries before
  induction entries generalizing ms with
  | nil =>
    rw [members, List.map_nil, List.map_nil, List.nil_append, List.append_nil]
  | cons entry entries ih =>
    obtain ⟨key, value⟩ := entry
    have hkey : key ∉ ms.map Prod.fst := by
      intro hmem
      exact (List.nodup_append.mp hkeys).2.2 key hmem key List.mem_cons_self rfl
    have hothers := @ih (ms ++ [(key, .scalar value.scalar)]) (by simpa using hkeys)
    rw [List.append_assoc] at hothers
    rw [List.map_cons, List.cons_append, run?, entries?_fresh hname hkey]
    exact hothers

/-- **Tables are built** behind one another. -/
theorem run?_tables {tables : Tables} (hnames : (done.map Prod.fst ++ tables.map Prod.fst).Nodup)
    (hkeys : ∀ table ∈ tables, (table.2.map Prod.fst).Nodup) (context : Key) :
    run? { root := done } context (tables.flatMap tableStatements) = some { root := done ++ document tables } := by
  induction tables generalizing done context with
  | nil =>
    rw [document, List.map_nil, List.append_nil]
    rfl
  | cons table tables ih =>
    obtain ⟨name, entries⟩ := table
    obtain ⟨hentries, hkeys⟩ := List.forall_mem_cons.mp hkeys
    have hname : name ∉ done.map Prod.fst := by
      intro hmem
      exact (List.nodup_append.mp hnames).2.2 name hmem name List.mem_cons_self rfl
    have hothers := @ih (done ++ [(name, .table (members entries))]) (by simpa using hnames) hkeys [name]
    rw [List.append_assoc] at hothers
    rw [List.flatMap_cons, tableStatements, List.cons_append, run?, openTable?_fresh hname]
    exact (run?_entries hname (by simpa using hentries) _).trans hothers

end Builder

/-- **A written file is read back.** -/
theorem document?_fileText {tables : Tables} (hbare : tables.Bare) (hunicode : tables.IsUnicode)
    (hnames : (tables.map Prod.fst).Nodup) (hkeys : ∀ table ∈ tables, (table.2.map Prod.fst).Nodup) :
    document? (fileText tables).bytes = some (document tables) := by
  unfold document? build?
  rw [statementsOfBytes?_fileText hbare hunicode, Option.bind_some,
    @Builder.run?_tables [] tables (by simpa using hnames) hkeys []]
  rfl

end StripSequencer.Toml
