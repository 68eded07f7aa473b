import StripSequencer.Assembly
import StripSequencer.Duration
import StripSequencer.Image

/-!
# `StripSequencer.Settings.Basic` — what a sequencer is started with

Settings describe the strip, the program buffer and what is preloaded into it, the clock, the address that
commands come in at, and the journal.

## Contents
- `Settings` with its defaults, and `Setting`, the name of each of its fields.
- `Settings.imagePath`, `Settings.journalPath`: paths as seen from the settings' directory.
- `Settings.preload` and `Settings.setup`: the program to start with, and the sequencer's setup.
-/

namespace StripSequencer

/-- Settings; the defaults hold where nothing else is said. Their texts need not be valid UTF-8. -/
structure Settings where
  leds : Int64 := 16
  pixelPolicy : Text := PixelPolicy.skip.name
  capacity : Int64 := Int64.ofNat Store.defaultCapacity
  maxSteps : Int64 := Int64.ofNat Player.defaultMaxSteps
  /-- The text of the program to preload, if it is not empty. -/
  source : Text := []
  /-- The path of an image to preload, if it is not empty. -/
  image : Text := []
  tick : Duration := .ofMilliseconds 100
  listen : Text := "localhost:4568"
  /-- The path of the journal; without one no journal is kept. -/
  journal : Text := []
  /-- The directory that the settings were read from. -/
  directory : Text := []
deriving DecidableEq, Repr

/-- The fields that stand in a file of settings. -/
inductive Setting where
  | leds
  | pixelPolicy
  | capacity
  | maxSteps
  | source
  | image
  | tick
  | listen
  | journal
deriving DecidableEq, Repr

namespace Setting

/-- The table that a setting stands in. -/
def table : Setting → String
  | .leds | .pixelPolicy => "strip"
  | .capacity | .maxSteps | .source | .image => "program"
  | .tick => "clock"
  | .listen => "server"
  | .journal => "journal"

/-- The key of a setting in its table. -/
def key : Setting → String
  | .leds => "num-leds"
  | .pixelPolicy => "pixel-policy"
  | .capacity => "capacity"
  | .maxSteps => "max-steps-per-tick"
  | .source => "source"
  | .image => "image"
  | .tick => "tick"
  | .listen => "listen"
  | .journal => "path"

/-- All settings, in the order in which they are written. -/
def every : List Setting :=
  [.leds, .pixelPolicy, .capacity, .maxSteps, .source, .image, .tick, .listen, .journal]

/-- The tables, in the order in which they are written. -/
def tables : List String := ["strip", "program", "clock", "server", "journal"]

/-- The path of a setting; a key with a hyphen is put in quotes. -/
def path (s : Setting) : String :=
  s.table ++ "." ++ if s.key.contains '-' then "\"" ++ s.key ++ "\"" else s.key

end Setting

namespace Settings

/-- A path as seen from the settings' directory; an empty path stays empty. -/
def located (s : Settings) (path : Text) : Text :=
  if path = [] ∨ Path.isAbsolute path then path else Path.join s.directory path

/-- Where the image is. -/
def imagePath (s : Settings) : Text := s.located s.image

/-- Where the journal is. -/
def journalPath (s : Settings) : Text := s.located s.journal

/-- What is done about pixels beyond the strip; an unknown name means that they are skipped. -/
def policy (s : Settings) : PixelPolicy := (s.pixelPolicy.toString?.bind PixelPolicy.ofName?).getD .skip

/-- Why there is no program to preload. -/
inductive PreloadError where
  | source (error : AssembleError)
  | image (error : Image.ReadError)
deriving DecidableEq, Repr

/-- The report of why there is no program to preload. -/
def PreloadError.failure : PreloadError → Failure
  | .source e => ⟨"program source: " ++ e.message, []⟩
  | .image e => e.failure

/-- The program to preload: the assembled source, the code of the image, or the demo program. -/
def preload (s : Settings) (files : FileTree) : Except PreloadError (List UInt8) :=
  if s.source ≠ [] then (Assembly.assemble s.source).mapError .source
  else if s.image ≠ [] then
    match Image.readFrom files s.imagePath with
    | .error e => .error (.image e)
    | .ok img => .ok img.program
  else .ok (Program.encode demoProgram)

/-- The setup of a sequencer with these settings and this program. -/
def setup (s : Settings) (code : List UInt8) : Sequencer.Setup where
  leds := UInt8.ofInt s.leds.toInt
  capacity := s.capacity.toInt
  maxSteps := s.maxSteps.toInt
  policy := s.policy
  code := code

/-- Why no sequencer can be started. -/
inductive StartError where
  | preload (error : PreloadError)
  | sequencer (why : Refusal)
deriving DecidableEq, Repr

/-- The report of why no sequencer can be started. -/
def StartError.failure : StartError → Failure
  | .preload e => e.failure
  | .sequencer why => Sequencer.preloadFailure why

/-- A sequencer with these settings, before it is started. -/
def sequencer (s : Settings) (files : FileTree) : Except StartError Sequencer :=
  match s.preload files with
  | .error e => .error (.preload e)
  | .ok code => (Sequencer.new (s.setup code)).mapError .sequencer

end Settings

end StripSequencer
