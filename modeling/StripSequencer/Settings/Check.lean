import StripSequencer.Settings.Schema

/-!
# `StripSequencer.Settings.Check` — which settings are acceptable

First every setting is unified with its constraint in the schema. What the schema cannot say comes after it: the tick
has to be positive, and a program is preloaded from one place only.

## Contents
- `Settings.meets`, `Settings.violations`: the schema, setting by setting.
- `Settings.validate` with `Settings.Invalid`.
-/

namespace StripSequencer

/-- All settings, in the order of their paths. -/
def Setting.byPath : List Setting :=
  [.tick, .journal, .maxSteps, .capacity, .image, .source, .listen, .leds, .pixelPolicy]

theorem Setting.mem_byPath (f : Setting) : f ∈ byPath := by
  cases f <;> decide

namespace Settings

/-- A setting can be unified with its constraint. -/
def meets (s : Settings) (f : Setting) : Bool := (f.constraint.unify (s.value f)).isSome

theorem meets_iff {s : Settings} {f : Setting} : s.meets f = true ↔ f.constraint.Admits (s.value f) := by
  unfold meets
  rw [Option.isSome_iff_exists]
  simp [Schema.Constraint.unify_eq_some_iff]

/-- The settings that violate the schema, in the order of their paths. -/
def violations (s : Settings) : List Setting := Setting.byPath.filter (! s.meets ·)

/-- Why settings are not acceptable. -/
inductive Invalid where
  | schema (violated : List Setting)
  | tickNotPositive (tick : Duration)
  | twoPrograms
deriving DecidableEq, Repr

/-- The words for why settings are not acceptable. -/
def Invalid.message : Invalid → String
  | .schema violated => "invalid value of " ++ String.intercalate ", " (violated.map Setting.path)
  | .tickNotPositive tick => "clock.tick must be positive, got " ++ tick.text
  | .twoPrograms => "program.source and program.image are mutually exclusive"

/-- Accepts settings that meet the schema, whose clock goes forward, and that name at most one program. -/
def validate (s : Settings) : Except Invalid Unit :=
  if s.violations ≠ [] then .error (.schema s.violations)
  else if s.tick.nanoseconds ≤ 0 then .error (.tickNotPositive s.tick)
  else if s.source ≠ [] ∧ s.image ≠ [] then .error .twoPrograms
  else .ok ()

end Settings

end StripSequencer
