import StripSequencer.Settings.Basic

/-!
# `StripSequencer.Settings.Schema` — the schema of settings

The schema is written in CUE, whose values and types are points of one lattice. This is the part of the language that
the schema uses: the types of integers and of texts, bounds, texts that are given or ruled out, and the meets and joins
of these. To check a value, the constraint is unified with it. That gives their meet, which for a value without unknowns
is the value itself if it lies below the constraint, and fails otherwise.

## Contents
- `Schema.Value`, `Schema.Constraint` and `Constraint.unify`.
- `Constraint.Admits`: the values below a constraint; `unify_eq_some_iff`: they are those that unification gives back.
- `Setting.constraint`: the schema; `Settings.value`: what is checked.
-/

namespace StripSequencer

namespace Schema

/-- A value without unknowns. -/
inductive Value where
  | integer (n : Int)
  | text (t : String)
deriving DecidableEq, Repr

/-- A constraint on values. -/
inductive Constraint where
  /-- Any integer. -/
  | integer
  /-- Any text. -/
  | text
  | atLeast (low : Int)
  | atMost (high : Int)
  | literal (t : String)
  | otherThan (t : String)
  | both (a b : Constraint)
  | either (a b : Constraint)
deriving DecidableEq, Repr

namespace Constraint

instance : AndOp Constraint := ⟨both⟩

instance : OrOp Constraint := ⟨either⟩

/-- The meet of a constraint and a value. A bound or a text that is ruled out is a constraint on the type, too. -/
def unify : Constraint → Value → Option Value
  | .integer, .integer n => some (.integer n)
  | .text, .text t => some (.text t)
  | .atLeast low, .integer n => if low ≤ n then some (.integer n) else none
  | .atMost high, .integer n => if n ≤ high then some (.integer n) else none
  | .literal t, .text u => if u = t then some (.text u) else none
  | .otherThan t, .text u => if u = t then none else some (.text u)
  | .both a b, v => (a.unify v).bind b.unify
  | .either a b, v => (a.unify v).or (b.unify v)
  | _, _ => none

/-- The value lies below the constraint. -/
def Admits : Constraint → Value → Prop
  | .integer, v => ∃ n, v = .integer n
  | .text, v => ∃ t, v = .text t
  | .atLeast low, v => ∃ n, v = .integer n ∧ low ≤ n
  | .atMost high, v => ∃ n, v = .integer n ∧ n ≤ high
  | .literal t, v => v = .text t
  | .otherThan t, v => ∃ u, v = .text u ∧ u ≠ t
  | .both a b, v => a.Admits v ∧ b.Admits v
  | .either a b, v => a.Admits v ∨ b.Admits v

/-- **Unification gives back the values below a constraint** and fails for the others. By induction on the
constraint. -/
theorem unify_eq_some_iff {c : Constraint} {v w : Value} : c.unify v = some w ↔ w = v ∧ c.Admits v := by
  induction c generalizing v w with
  | both a b iha ihb =>
    rw [unify, Option.bind_eq_some_iff]
    constructor
    · rintro ⟨u, ha, hb⟩
      obtain ⟨rfl, hadmits⟩ := iha.mp ha
      obtain ⟨rfl, hadmits'⟩ := ihb.mp hb
      exact ⟨rfl, hadmits, hadmits'⟩
    · rintro ⟨rfl, ha, hb⟩
      exact ⟨_, iha.mpr ⟨rfl, ha⟩, ihb.mpr ⟨rfl, hb⟩⟩
  | either a b iha ihb =>
    rw [unify, Option.or_eq_some_iff, iha, ihb]
    constructor
    · rintro (⟨rfl, ha⟩ | ⟨-, rfl, hb⟩)
      · exact ⟨rfl, .inl ha⟩
      · exact ⟨rfl, .inr hb⟩
    · rintro ⟨rfl, hadmits⟩
      -- the second constraint has a say only where the first one fails
      cases ha : a.unify w with
      | some u => exact .inl ⟨rfl, (iha.mp ha).2⟩
      | none =>
        rcases hadmits with hadmits | hb
        · rw [iha.mpr ⟨rfl, hadmits⟩] at ha
          cases ha
        · exact .inr ⟨rfl, rfl, hb⟩
  | integer | text | atLeast | atMost | literal | otherThan =>
    cases v <;> simp [unify, Admits, eq_comm, and_comm]

end Constraint

end Schema

open Schema (Constraint Value)

/-- The schema: every setting has one constraint, and there are no others. -/
def Setting.constraint : Setting → Constraint
  | .leds => .integer &&& .atLeast 1 &&& .atMost 255
  | .pixelPolicy => .literal "skip" ||| .literal "forward" ||| .literal "reject"
  | .capacity => .integer &&& .atLeast 1 &&& .atMost 65535
  | .maxSteps => .integer &&& .atLeast 1
  | .source => .text
  | .image => .text
  | .tick => .text
  | .listen => .text &&& .otherThan ""
  | .journal => .text

namespace Settings

/-- A setting as the schema sees it: texts with the replacement character for stray bytes, and the tick as its text. -/
def value (s : Settings) : Setting → Value
  | .leds => .integer s.leds.toInt
  | .pixelPolicy => .text s.pixelPolicy.display
  | .capacity => .integer s.capacity.toInt
  | .maxSteps => .integer s.maxSteps.toInt
  | .source => .text s.source.display
  | .image => .text s.image.display
  | .tick => .text s.tick.text
  | .listen => .text s.listen.display
  | .journal => .text s.journal.display

end Settings

end StripSequencer
