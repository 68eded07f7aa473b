import Mathlib
import StripSequencer.Proofs.DurationText
import StripSequencer.Proofs.FileWrites
import StripSequencer.Proofs.TomlRoundTrip
import StripSequencer.Settings.File

/-!
# `StripSequencer.Proofs.SettingsRoundTrip` — settings survive being saved and loaded

Settings are written as tables of plain values, one entry for each setting, and a tick as the text of a duration. Each
setting is found again by its table and its key, and read from the value that it was written as, so that a file says all
settings and leaves nothing to the defaults.

## Contents
- `Setting.find?_key`, `Setting.find?_table`: settings and tables are found by their names.
- `Settings.copied`, `Settings.set?_plain`, `Settings.readDocument?_tables`: settings are read from what they are
  written as.
- `Settings.parse?_text`, `Settings.load_save`: the file, and the way through a file tree.
- `settings_round_trip`: all together.
-/

namespace StripSequencer

/-! ## Names -/

namespace Setting

theorem isBareName_table : ∀ name ∈ tables, Toml.isBareName name = true := by
  decide

theorem isBareName_key (f : Setting) : Toml.isBareName f.key = true := by
  cases f <;> decide

theorem nodup_keys (name : String) : ((every.filter (·.table = name)).map key).Nodup := by
  have hall : (every.map key).Nodup := by decide
  exact hall.sublist (List.filter_sublist.map key)

/-- A setting is found by its table and its key. -/
theorem find?_key (f : Setting) : every.find? (fun g => g.table = f.table && sameName g.key f.key) = some f := by
  cases f <;> decide

/-- A table is found by its name. -/
theorem find?_table : ∀ name ∈ tables, tables.find? (sameName · name) = some name := by
  decide

/-- The settings of the tables in order are all settings in order. -/
theorem flatMap_tables : tables.flatMap (fun name => every.filter (·.table = name)) = every := by
  decide

end Setting

namespace Settings

/-- The settings with one setting taken from others. -/
def copied (s into : Settings) : Setting → Settings
  | .leds => { into with leds := s.leds }
  | .pixelPolicy => { into with pixelPolicy := s.pixelPolicy }
  | .capacity => { into with capacity := s.capacity }
  | .maxSteps => { into with maxSteps := s.maxSteps }
  | .source => { into with source := s.source }
  | .image => { into with image := s.image }
  | .tick => { into with tick := s.tick }
  | .listen => { into with listen := s.listen }
  | .journal => { into with journal := s.journal }

/-- The texts that stand in a file have no stray bytes. -/
structure IsUnicode (s : Settings) : Prop where
  pixelPolicy : s.pixelPolicy.IsUnicode
  source : s.source.IsUnicode
  image : s.image.IsUnicode
  listen : s.listen.IsUnicode
  journal : s.journal.IsUnicode

theorem IsUnicode.plain {s : Settings} (h : s.IsUnicode) (f : Setting) : (s.plain f).IsUnicode := by
  cases f with
  | leds | capacity | maxSteps => trivial
  | pixelPolicy => exact h.pixelPolicy
  | source => exact h.source
  | image => exact h.image
  | listen => exact h.listen
  | journal => exact h.journal
  | tick => exact Text.isUnicode_ofString _

/-- A setting is read from the value that it is written as. -/
theorem set?_plain {s : Settings} (h : s.IsUnicode) (into : Settings) (f : Setting) :
    into.set? f (.scalar (s.plain f).scalar) = some (s.copied into f) := by
  -- texts go through their characters, and the tick through its text
  cases f with
  | leds | capacity | maxSteps => rfl
  | pixelPolicy => simp [set?, plain, Toml.Plain.scalar, copied, h.pixelPolicy.ofString_chars]
  | source => simp [set?, plain, Toml.Plain.scalar, copied, h.source.ofString_chars]
  | image => simp [set?, plain, Toml.Plain.scalar, copied, h.image.ofString_chars]
  | listen => simp [set?, plain, Toml.Plain.scalar, copied, h.listen.ofString_chars]
  | journal => simp [set?, plain, Toml.Plain.scalar, copied, h.journal.ofString_chars]
  | tick =>
    simp [set?, plain, Toml.Plain.scalar, durationText?, Duration.parse_text, Except.toOption, copied]

/-- The tables of the file. -/
def tables (s : Settings) (names : List String) : Toml.Tables :=
  names.map fun name => (name, (Setting.every.filter (·.table = name)).map fun f => (f.key, s.plain f))

/-- **The settings of a table are read** in order. -/
theorem readTable?_members {s : Settings} (hunicode : s.IsUnicode) (into : Settings) {fs : List Setting} {name : String}
    (h : ∀ f ∈ fs, f.table = name) :
    into.readTable? name (Toml.members (fs.map fun f => (f.key, s.plain f))) = some (fs.foldl s.copied into) := by
  induction fs generalizing into with
  | nil => rfl
  | cons f fs ih =>
    obtain ⟨hf, hfs⟩ := List.forall_mem_cons.mp h
    have hfind := f.find?_key
    rw [hf] at hfind
    have hothers := ih (s.copied into f) hfs
    unfold readTable? Toml.members at hothers ⊢
    rw [List.map_cons, List.map_cons, List.foldlM_cons]
    simp only [hfind, set?_plain hunicode]
    exact hothers

/-- **The tables are read** in order. -/
theorem readDocument?_tables {s : Settings} (hunicode : s.IsUnicode) (into : Settings) {names : List String}
    (h : ∀ name ∈ names, name ∈ Setting.tables) :
    into.readDocument? (Toml.document (s.tables names))
      = some ((names.flatMap fun name => Setting.every.filter (·.table = name)).foldl s.copied into) := by
  induction names generalizing into with
  | nil => rfl
  | cons name names ih =>
    obtain ⟨hname, hnames⟩ := List.forall_mem_cons.mp h
    have htable := @readTable?_members s hunicode into (Setting.every.filter (·.table = name)) name (by simp)
    have hothers := ih ((Setting.every.filter (·.table = name)).foldl s.copied into) hnames
    unfold readDocument? Toml.document tables at hothers ⊢
    rw [List.map_cons, List.map_cons, List.foldlM_cons]
    simp only [Setting.find?_table name hname, htable]
    rw [List.flatMap_cons, List.foldl_append]
    exact hothers

theorem bare_tables (s : Settings) : (s.tables Setting.tables).Bare := by
  intro table htable
  obtain ⟨name, hname, rfl⟩ := List.mem_map.mp htable
  refine ⟨Setting.isBareName_table name hname, ?_⟩
  intro entry hentry
  obtain ⟨f, -, rfl⟩ := List.mem_map.mp hentry
  exact f.isBareName_key

theorem isUnicode_tables {s : Settings} (h : s.IsUnicode) : (s.tables Setting.tables).IsUnicode := by
  intro table htable entry hentry
  obtain ⟨name, -, rfl⟩ := List.mem_map.mp htable
  obtain ⟨f, -, rfl⟩ := List.mem_map.mp hentry
  exact h.plain f

theorem nodup_names (s : Settings) : ((s.tables Setting.tables).map Prod.fst).Nodup := by
  have hnames : (s.tables Setting.tables).map Prod.fst = Setting.tables := by simp [tables, Function.comp_def]
  rw [hnames]
  decide

theorem nodup_keys (s : Settings) : ∀ table ∈ s.tables Setting.tables, (table.2.map Prod.fst).Nodup := by
  intro table htable
  obtain ⟨name, -, rfl⟩ := List.mem_map.mp htable
  simpa [Function.comp_def] using Setting.nodup_keys name

theorem foldl_copied_every (s : Settings) : Setting.every.foldl s.copied {} = { s with directory := [] } := by
  simp [Setting.every, copied]

/-- **The file of settings says all of them.** -/
theorem parse?_text {s : Settings} (h : s.IsUnicode) : parse? s.text.bytes = some { s with directory := [] } := by
  have htext : s.text = Toml.fileText (s.tables Setting.tables) := rfl
  unfold parse?
  rw [htext, Toml.document?_fileText s.bare_tables (isUnicode_tables h) s.nodup_names s.nodup_keys, Option.bind_some,
    readDocument?_tables h {} fun _ hname => hname, Setting.flatMap_tables, foldl_copied_every]

/-! ## Files -/

theorem isName_fileName : Path.IsName fileName where
  ne_nil := by decide
  ne_here := by decide
  ne_above := by decide
  no_slash := by decide
  no_zero := by decide

/-- **What was saved is loaded**, with the directory that it is loaded from. -/
theorem load_save {s : Settings} (h : s.validate = .ok ()) (hunicode : s.IsUnicode) {files written : FileTree}
    {directory : Text}
    (hsave : save files directory s = .ok written) :
    load written directory = .ok { s with directory := files.absolute directory } := by
  obtain ⟨place, -, -, -, hwritten⟩ := FileTree.write_eq_ok_iff.mp hsave
  have hcurrent : written.absolute directory = files.absolute directory := by
    rw [hwritten]
    rfl
  have hread : written.read (Path.join directory fileName) = .ok s.text.bytes := FileTree.read_write hsave
  -- the check does not look at the directory
  have hvalid : ({ s with directory := [] } : Settings).validate = .ok () := h
  unfold load
  simp only [hread, parse?_text hunicode, hvalid, hcurrent]

end Settings

/-- **Files of settings round-trip.** Settings that pass their check can be saved in every directory that is there,
unless another directory has the name of the file; and from whatever directory they were saved in, they are loaded
with all fields but the directory as they were. Their texts may hold any characters, but no stray bytes. -/
theorem settings_round_trip (s : Settings) (h : s.validate = .ok ()) (hunicode : s.IsUnicode) (files : FileTree)
    (directory : Text) :
    (∀ place, files.resolve directory = .ok place → files.nodeAt? place = some .directory →
      files.nodeAt? (place ++ [Settings.fileName]) ≠ some .directory →
      ∃ written, Settings.save files directory s = .ok written)
    ∧ ∀ written, Settings.save files directory s = .ok written →
      Settings.load written directory = .ok { s with directory := files.absolute directory } := by
  constructor
  · intro place hplace hdirectory hfree
    exact FileTree.exists_write_join Settings.isName_fileName hplace hdirectory hfree _
  · intro written hsave
    exact Settings.load_save h hunicode hsave

/-- Settings at their bounds, with quotes, backslashes, line breaks and control characters in their texts, saved in a
directory that is reached in a roundabout way. -/
theorem unusual_settings_round_trip :
    ∃ (s : Settings) (written : FileTree), s.leds = 255 ∧ s.maxSteps = Int64.maxValue ∧ s.tick = ⟨1⟩
      ∧ s.source = "# \"quoted\" \\ \r\n\tclear\n" ∧ s.listen = "\x00\x1b\x7f'\"\"\"é😀" ∧ s.validate = .ok ()
      ∧ Settings.save { nodes := [(["etc"], .directory)] } "/etc/.././etc/" s = .ok written
      ∧ Settings.load written "/etc/.././etc/" = .ok { s with directory := "/etc" } := by
  let s : Settings := {
    leds := 255
    maxSteps := Int64.maxValue
    tick := ⟨1⟩
    source := "# \"quoted\" \\ \r\n\tclear\n"
    listen := "\x00\x1b\x7f'\"\"\"é😀" }
  have hvalid : s.validate = .ok () := by decide
  have hunicode : s.IsUnicode :=
    ⟨Text.isUnicode_ofString _, Text.isUnicode_ofString _, nofun, Text.isUnicode_ofString _, nofun⟩
  have hplace : ({ nodes := [(["etc"], .directory)] } : FileTree).resolve "/etc/.././etc/" = .ok ["etc"] := by
    cbv
  have hdirectory : ({ nodes := [(["etc"], .directory)] } : FileTree).absolute "/etc/.././etc/" = "/etc" := by
    cbv
  obtain ⟨hsaved, hloaded⟩ := settings_round_trip s hvalid hunicode { nodes := [(["etc"], .directory)] } "/etc/.././etc/"
  obtain ⟨written, hwritten⟩ := hsaved ["etc"] hplace (by decide) (by decide)
  have hread := hloaded written hwritten
  rw [hdirectory] at hread
  exact ⟨s, written, rfl, rfl, rfl, rfl, rfl, hvalid, hwritten, hread⟩

end StripSequencer
