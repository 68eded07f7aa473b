import StripSequencer.Proofs.ImageRoundTrip
import StripSequencer.Proofs.Installation
import StripSequencer.Proofs.LineByLine
import StripSequencer.Proofs.TextBytes
import StripSequencer.Settings.Check

/-!
# `StripSequencer.Proofs.SettingsApplied` — accepted settings are applied as they are

On the way from settings to a sequencer numbers are narrowed, and an unknown policy, a step bound that is not
positive or a negative capacity is replaced. For settings that pass the check none of this happens, and whatever the
program is taken from, it is a list of complete instructions. What is left is that it may be too long.

## Contents
- `Settings.Bounds`, `Settings.bounds_of_validate`: what the check says about the numbers and the policy.
- `Settings.validate_of_preload`: every source of a program gives complete instructions.
- `Assembly.assemble_of_no_fields`: a text without instructions.
- `Settings.Applied`, `settings_applied_exactly`.
-/

namespace StripSequencer

open Program

/-- The program of an image file is a list of complete instructions. -/
theorem Image.validate_of_readFrom {files : FileTree} {path : Text} {img : Image}
    (h : Image.readFrom files path = .ok img) : Program.validate img.program = .ok () := by
  unfold readFrom at h
  split at h
  · cases h
  · next data _ =>
    cases hdecoded : decode data with
    | error e =>
      rw [hdecoded] at h
      cases h
    | ok decoded =>
      rw [hdecoded] at h
      cases h
      obtain ⟨-, -, -, hprogram⟩ := validate_eq_ok_iff.mp (validate_of_decode hdecoded)
      exact hprogram

/-- A text whose lines are blank up to their comments has an empty program. -/
theorem Assembly.assemble_of_no_fields {t : Text} (h : ∀ line ∈ t.lines, (uncommented line).fields = []) :
    assemble t = .ok [] := by
  have hlines : ∀ (lines : List Text) (number : Nat), (∀ line ∈ lines, (uncommented line).fields = []) →
      assembleLines number lines = .ok [] := by
    intro lines
    induction lines with
    | nil =>
      intro number _
      rfl
    | cons line lines ih =>
      intro number hnone
      have hline : assembleLine line = .ok none := by
        unfold assembleLine
        rw [hnone line List.mem_cons_self]
      rw [assembleLines, hline]
      exact ih (number + 1) fun line' hline' => hnone line' (List.mem_cons_of_mem line hline')
  unfold assemble assembleProgram
  rw [hlines t.lines 1 h]
  rfl

namespace Settings

/-! ## Accepted settings -/

/-- The bounds that accepted settings keep. -/
structure Bounds (s : Settings) : Prop where
  leds_pos : 1 ≤ s.leds.toInt
  leds_le : s.leds.toInt ≤ 255
  capacity_pos : 1 ≤ s.capacity.toInt
  maxSteps_pos : 1 ≤ s.maxSteps.toInt
  policy : ∃ policy ∈ [PixelPolicy.skip, .forward, .reject], .ofString policy.name = s.pixelPolicy

/-- Accepted settings lie below the schema. -/
theorem admits_of_validate {s : Settings} (h : s.validate = .ok ()) :
    ∀ f : Setting, f.constraint.Admits (s.value f) := by
  unfold validate at h
  split at h
  · cases h
  · next hnone =>
    have hviolations : s.violations = [] := Decidable.not_not.mp hnone
    intro f
    have hmeets := List.filter_eq_nil_iff.mp hviolations f f.mem_byPath
    exact meets_iff.mp (by simpa using hmeets)

theorem bounds_of_validate {s : Settings} (h : s.validate = .ok ()) : s.Bounds := by
  have hadmits := admits_of_validate h
  obtain ⟨⟨-, -, ⟨⟩, hleds⟩, -, ⟨⟩, hleds'⟩ := hadmits .leds
  obtain ⟨⟨-, -, ⟨⟩, hcapacity⟩, -⟩ := hadmits .capacity
  obtain ⟨-, -, ⟨⟩, hsteps⟩ := hadmits .maxSteps
  refine ⟨hleds, hleds', hcapacity, hsteps, ?_⟩
  -- the schema sees the policy with a replacement character for each stray byte, and no name has one
  have hnamed : ∀ name : String, Char.ofNat 0xFFFD ∉ name.toList →
      s.value .pixelPolicy = .text name → .ofString name = s.pixelPolicy := by
    intro name hname hvalue
    cases Schema.Value.text.inj hvalue
    exact Text.ofString_display hname
  rcases hadmits .pixelPolicy with (hskip | hforward) | hreject
  · exact ⟨.skip, by simp, hnamed _ (by decide) hskip⟩
  · exact ⟨.forward, by simp, hnamed _ (by decide) hforward⟩
  · exact ⟨.reject, by simp, hnamed _ (by decide) hreject⟩

/-- The policy of accepted settings is the one that they name. -/
theorem name_policy {s : Settings} (h : s.Bounds) : .ofString s.policy.name = s.pixelPolicy := by
  obtain ⟨policy, hmem, hname⟩ := h.policy
  unfold Settings.policy
  rw [← hname, Text.toString?_ofString, Option.bind_some]
  simp only [List.mem_cons, List.not_mem_nil, or_false] at hmem
  rcases hmem with rfl | rfl | rfl <;> rfl

/-! ## The program -/

/-- **Whatever the program is taken from, it is a list of complete instructions.** -/
theorem validate_of_preload {s : Settings} {files : FileTree} {code : List UInt8}
    (h : s.preload files = .ok code) : Program.validate code = .ok () := by
  unfold preload at h
  split at h
  · -- the source
    cases hassembled : Assembly.assemble s.source with
    | error e =>
      rw [hassembled] at h
      cases h
    | ok assembled =>
      rw [hassembled] at h
      cases h
      exact Assembly.validate_of_assemble hassembled
  · split at h
    · -- the image
      cases hread : Image.readFrom files s.imagePath with
      | error e =>
        rw [hread] at h
        cases h
      | ok img =>
        rw [hread] at h
        cases h
        exact Image.validate_of_readFrom hread
    · -- the demo program
      cases h
      exact validate_encode demoProgram

/-! ## The sequencer -/

/-- The number of LEDs of accepted settings is not cut to a byte. -/
theorem toNat_setup_leds {s : Settings} (h : s.Bounds) (code : List UInt8) :
    ((s.setup code).leds.toNat : Int) = s.leds.toInt := by
  have hpos := h.leds_pos
  have hle := h.leds_le
  show ((UInt8.ofNat (s.leds.toInt % 256).toNat).toNat : Int) = s.leds.toInt
  rw [UInt8.toNat_ofNat']
  omega

/-- Neither is the step bound replaced by the default. -/
theorem setup_maxSteps {s : Settings} (h : s.Bounds) (code : List UInt8) :
    ((s.setup code).rules.maxSteps : Int) = s.maxSteps.toInt := by
  have hpos : 0 < s.maxSteps.toInt := h.maxSteps_pos
  have hrules : (s.setup code).rules.maxSteps = s.maxSteps.toInt.toNat := if_pos hpos
  rw [hrules, Int.toNat_of_nonneg (Int.le_of_lt hpos)]

/-- A paused sequencer that is as the settings say, with a program. -/
structure Applied (s : Settings) (code : List UInt8) (q : Sequencer) : Prop where
  capacity : (q.store.capacity : Int) = s.capacity.toInt
  leds : (q.rules.leds.toNat : Int) = s.leds.toInt
  maxSteps : (q.rules.maxSteps : Int) = s.maxSteps.toInt
  policy : .ofString q.rules.policy.name = s.pixelPolicy
  mode : q.mode = .paused
  program : q.program = code

section Start

variable {s : Settings} {p : List Instruction}

/-- A program that fits is installed under the settings. -/
theorem exists_applied (h : s.Bounds) (hfits : (size p : Int) ≤ s.capacity.toInt) :
    ∃ q a, Sequencer.new (s.setup (encode p)) = .ok q ∧ s.Applied (encode p) q
      ∧ Realizes q a ∧ a.mode = .paused ∧ a.program = p := by
  have hpos := h.capacity_pos
  have hnat : size p ≤ (s.setup (encode p)).capacity.toNat := by
    show size p ≤ s.capacity.toInt.toNat
    omega
  obtain ⟨q, hnew, hreal⟩ := @new_installs (s.setup (encode p)) p rfl hnat
  refine ⟨q, _, hnew, ⟨?_, ?_, ?_, ?_, hreal.mode, hreal.program_eq⟩, hreal, rfl, rfl⟩
  · rw [hreal.capacity]
    show (s.capacity.toInt.toNat : Int) = s.capacity.toInt
    omega
  · rw [hreal.rules]
    exact toNat_setup_leds h (encode p)
  · rw [hreal.rules]
    exact setup_maxSteps h (encode p)
  · rw [hreal.rules]
    exact name_policy h

/-- A program that does not fit is refused as too long. -/
theorem new_of_too_long (h : s.Bounds) (hlong : s.capacity.toInt < (size p : Int)) :
    Sequencer.new (s.setup (encode p)) = .error (.tooLong (size p) s.capacity.toInt.toNat) := by
  have hpos := h.capacity_pos
  have hcapacity : (Store.empty s.capacity.toInt).capacity = s.capacity.toInt.toNat := List.length_replicate
  have hload : (Store.empty s.capacity.toInt).load (encode p) = .error (.tooLong (size p) s.capacity.toInt.toNat) := by
    have hover : (Store.empty s.capacity.toInt).capacity < (encode p).length := by
      rw [hcapacity, length_encode]
      omega
    have hrefused := outcome_of_error (Store.InPlace.load_of_long hover)
    rwa [hcapacity, length_encode] at hrefused
  show (Store.empty s.capacity.toInt).load (encode p) >>= _ = _
  rw [hload]
  rfl

/-- Playback of an empty program does not start. -/
theorem start_of_empty {q : Sequencer} {a : Ideal} (h : Realizes q a) (hpaused : a.mode = .paused)
    (hempty : a.program = []) : q.start.1 = q := by
  have hentry : a.mode ≠ .commandEntry := by
    rw [hpaused]
    decide
  have hrunning : q.mode ≠ .running := by
    rw [h.mode, hpaused]
    decide
  unfold Sequencer.start
  rw [Sequencer.InPlace.run_of_empty hrunning ((h.isEmpty_iff hentry).mpr hempty)]

/-- Nothing but the length of the program decides whether there is a sequencer. -/
theorem new_of_bounds (h : s.Bounds) :
    ((∃ q, Sequencer.new (s.setup (encode p)) = .ok q) ↔ ((encode p).length : Int) ≤ s.capacity.toInt)
      ∧ (∀ q, Sequencer.new (s.setup (encode p)) = .ok q → s.Applied (encode p) q)
      ∧ ∀ why, Sequencer.new (s.setup (encode p)) = .error why →
        (Sequencer.preloadFailure why).causes = [.capacityExceeded] := by
  rw [length_encode]
  by_cases hfits : (size p : Int) ≤ s.capacity.toInt
  · obtain ⟨q, -, hnew, happlied, -⟩ := exists_applied h hfits
    rw [hnew]
    refine ⟨⟨fun _ => hfits, fun _ => ⟨q, rfl⟩⟩, ?_, ?_⟩
    · intro q' heq
      cases heq
      exact happlied
    · intro why heq
      cases heq
  · rw [new_of_too_long h (by omega)]
    refine ⟨⟨?_, fun hle => absurd hle hfits⟩, ?_, ?_⟩
    · rintro ⟨q, heq⟩
      cases heq
    · intro q heq
      cases heq
    · intro why heq
      cases heq
      rfl

/-- An empty program always fits, and a sequencer with it stays paused when it is started. -/
theorem exists_idle (h : s.Bounds) :
    ∃ q, Sequencer.new (s.setup []) = .ok q ∧ q.program = []
      ∧ q.start.1.mode = .paused ∧ q.start.1.program = [] := by
  have hpos := h.capacity_pos
  have hfits : (size [] : Int) ≤ s.capacity.toInt := by
    rw [size_nil]
    omega
  obtain ⟨q, a, hnew, happlied, hreal, hpaused, hempty⟩ := exists_applied h hfits
  refine ⟨q, hnew, happlied.program, ?_⟩
  rw [start_of_empty hreal hpaused hempty]
  exact ⟨happlied.mode, happlied.program⟩

end Start

end Settings

/-- **Accepted settings are applied as they are.** With whatever program they preload there is a sequencer exactly if
the program fits in the buffer, it is as the settings say, and a refusal means that the program is too long. A source
without instructions is an empty program, and not the demo program. -/
theorem settings_applied_exactly {s : Settings} (hvalid : s.validate = .ok ()) :
    (∀ files code, s.preload files = .ok code →
      ((∃ q, Sequencer.new (s.setup code) = .ok q) ↔ (code.length : Int) ≤ s.capacity.toInt)
        ∧ (∀ q, Sequencer.new (s.setup code) = .ok q → s.Applied code q)
        ∧ ∀ why, Sequencer.new (s.setup code) = .error why →
          (Sequencer.preloadFailure why).causes = [.capacityExceeded])
      ∧ (s.source ≠ [] → (∀ line ∈ s.source.lines, (Assembly.uncommented line).fields = []) →
        ∀ files, s.preload files = .ok [] ∧ ∃ q, Sequencer.new (s.setup []) = .ok q ∧ q.program = []
          ∧ q.start.1.mode = .paused ∧ q.start.1.program = []) := by
  have hbounds := Settings.bounds_of_validate hvalid
  refine ⟨?_, ?_⟩
  · intro files code hpreload
    obtain ⟨p, rfl⟩ := exists_encode_of_validate (Settings.validate_of_preload hpreload)
    exact Settings.new_of_bounds hbounds
  · intro hsource hnone files
    refine ⟨?_, Settings.exists_idle hbounds⟩
    unfold Settings.preload
    rw [if_pos hsource, Assembly.assemble_of_no_fields hnone]
    rfl

/-- The largest strip and the smallest step bound, with a buffer that the demo program fills. -/
def tightSettings : Settings where
  leds := 255
  pixelPolicy := "reject"
  capacity := 10
  maxSteps := 1

/-- The same with a source that holds a remark only, in which there is a stray byte. -/
def remarkSettings : Settings := { tightSettings with source := Text.ofString "\t\n# nothing yet " ++ [.stray 0xFF] }

/-- The demo program fills the buffer, and the remark leaves it empty. -/
theorem tight_settings_applied :
    (∃ q, Sequencer.new (tightSettings.setup (encode demoProgram)) = .ok q
        ∧ tightSettings.Applied (encode demoProgram) q)
      ∧ ∃ q, Sequencer.new (remarkSettings.setup []) = .ok q ∧ q.start.1.mode = .paused := by
  have htight : tightSettings.validate = .ok () := rfl
  have hremark : remarkSettings.validate = .ok () := rfl
  have hnone : ∀ line ∈ remarkSettings.source.lines, (Assembly.uncommented line).fields = [] := by
    decide +kernel
  constructor
  · obtain ⟨hiff, happlied, -⟩ := (settings_applied_exactly htight).1 {} (encode demoProgram) rfl
    obtain ⟨q, hnew⟩ := hiff.mpr (by decide)
    exact ⟨q, hnew, happlied q hnew⟩
  · obtain ⟨-, q, hnew, -, hpaused, -⟩ := (settings_applied_exactly hremark).2 (by decide) hnone {}
    exact ⟨q, hnew, hpaused⟩

end StripSequencer
