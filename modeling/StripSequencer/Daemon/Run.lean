import StripSequencer.Daemon.Address
import StripSequencer.Daemon.Options
import StripSequencer.LanguageServer.Wire
import StripSequencer.Service
import StripSequencer.Settings.File

/-!
# `StripSequencer.Daemon.Run` — playing a program and serving commands

The daemon loads its settings, builds a sequencer, and then plays and serves until it is told to end. As a
language server it does neither.

## Contents
- `start`: what becomes of the daemon's arguments.
- `Playing`: a daemon that plays; `Playing.advance` lets time pass, `Playing.finish` ends it.
-/

namespace StripSequencer.Daemon

open CommandLine (Transcript)

/-- A daemon that plays and serves. -/
structure Playing where
  service : Service
  terminal : Strip.Terminal
  tick : Duration
  /-- The strip is drawn after every tick. -/
  render : Bool
  /-- The nanoseconds since the start. -/
  elapsed : Nat := 0
  /-- What was drawn so far. -/
  out : String := ""

namespace Playing

/-- One tick. -/
def step (d : Playing) : Playing :=
  let got := Ticker.step d.service.worker
  let terminal := d.terminal.callAll got.calls
  let (text, terminal) := if d.render then terminal.render else ("", terminal)
  { d with service := { d.service with worker := got.worker }, terminal, out := d.out ++ text }

/-- The daemon after a number of ticks. -/
def steps : Nat → Playing → Playing
  | 0, d => d
  | n + 1, d => steps n d.step

/-- The number of ticks in a number of nanoseconds. -/
def ticksIn (d : Playing) (nanoseconds : Nat) : Nat := nanoseconds / d.tick.nanoseconds.toInt.toNat

/-- Lets time pass. -/
def advance (d : Playing) (nanoseconds : Nat) : Playing :=
  let now := d.elapsed + nanoseconds
  { steps (d.ticksIn now - d.ticksIn d.elapsed) d with elapsed := now }

/-- What a daemon that is told to end leaves behind; the drawn line is ended. -/
def finish (d : Playing) : Transcript := .printed (d.out ++ if d.render then "\n" else "")

end Playing

/-- What becomes of the daemon's arguments. -/
inductive Started where
  | finished (transcript : Transcript)
  | playing (daemon : Playing)

/-- The settings at or above a directory, or the default ones. -/
def settingsFrom (files : FileTree) (directory : String) : Except String Settings :=
  match Settings.find files directory with
  | .error e => .error e.message
  | .ok found => .ok (found.getD {})

/-- The journal that settings ask for. -/
def journalFor (files : FileTree) (s : Settings) : Except String (Option Journal) :=
  if s.journal = [] then .ok none
  else
    match Journal.checkFile files s.journalPath with
    | .error e => .error e.message
    | .ok () => .ok (some { path := s.journalPath })

/-- The daemon with these settings, before it listens. -/
def assemble (files : FileTree) (s : Settings) (render : Bool) : Except String Playing := do
  let sequencer ← (s.sequencer files).mapError (·.failure.message)
  let started := sequencer.step .start
  let journal ← journalFor files s
  return {
    service := { worker := { sequencer := started.state }, journal }
    terminal := (Strip.Terminal.blank s.leds.toInt.toNat).callAll started.calls
    tick := s.tick
    render }

/-- Starts to play and to serve. A daemon that cannot listen still ends the line that it draws. -/
def startPlaying (files : FileTree) (o : Options) (s : Settings) : Started :=
  match assemble files s o.render with
  | .error message => .finished (.failed message)
  | .ok daemon =>
    match checkAddress (if o.listen = "" then s.listen.display else o.listen) with
    | .error e => .finished (.failed e.message daemon.finish.out)
    | .ok () => .playing daemon

/-- Starts the daemon with arguments; `input` is what a language server reads. -/
def start (files : FileTree) (arguments : List String) (input : List UInt8) : Started :=
  match Options.parse arguments with
  | .error e => .finished e.transcript
  | .ok o =>
    match settingsFrom files o.directory with
    | .error message => .finished (.failed message)
    | .ok s =>
      if o.languageServer then
        .finished (.printed (LanguageServer.serve { capacity := s.capacity.toInt } input))
      else startPlaying files o s

end StripSequencer.Daemon
