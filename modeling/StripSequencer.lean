import StripSequencer.Assembly
import StripSequencer.Cbor.Item
import StripSequencer.Cbor.Reader
import StripSequencer.Cbor.Value
import StripSequencer.Command
import StripSequencer.CommandLine.Suggestion
import StripSequencer.CommandLine.Transcript
import StripSequencer.Control.Help
import StripSequencer.Control.Link
import StripSequencer.Control.Options
import StripSequencer.Control.Run
import StripSequencer.Control.Verb
import StripSequencer.Daemon.Address
import StripSequencer.Daemon.Options
import StripSequencer.Daemon.Run
import StripSequencer.Duration
import StripSequencer.FileTree
import StripSequencer.Fraction
import StripSequencer.Frame
import StripSequencer.Image
import StripSequencer.Instruction
import StripSequencer.Journal
import StripSequencer.Json
import StripSequencer.LanguageServer.Cursor
import StripSequencer.LanguageServer.Diagnostic
import StripSequencer.LanguageServer.Framework
import StripSequencer.LanguageServer.Message
import StripSequencer.LanguageServer.Session
import StripSequencer.LanguageServer.Wire
import StripSequencer.Listing
import StripSequencer.Main
import StripSequencer.Opcode
import StripSequencer.Player
import StripSequencer.Program
import StripSequencer.Proofs.CborReading
import StripSequencer.Proofs.Consistency
import StripSequencer.Proofs.Cycle
import StripSequencer.Proofs.EditSession
import StripSequencer.Proofs.Grammar
import StripSequencer.Proofs.Ideal
import StripSequencer.Proofs.ImageRoundTrip
import StripSequencer.Proofs.InPlace
import StripSequencer.Proofs.Installation
import StripSequencer.Proofs.Layout
import StripSequencer.Proofs.ListingText
import StripSequencer.Proofs.Moves
import StripSequencer.Proofs.Playback
import StripSequencer.Proofs.ProgramFrame
import StripSequencer.Proofs.Reassembly
import StripSequencer.Proofs.Refinement
import StripSequencer.Proofs.Refusals
import StripSequencer.Proofs.Runs
import StripSequencer.Proofs.Scanning
import StripSequencer.Proofs.StaleBytes
import StripSequencer.Proofs.StripSafety
import StripSequencer.Proofs.TickIndependence
import StripSequencer.Proofs.Tokens
import StripSequencer.Proofs.Transition
import StripSequencer.Refusal
import StripSequencer.Sequencer
import StripSequencer.Service
import StripSequencer.Settings.Basic
import StripSequencer.Settings.Check
import StripSequencer.Settings.File
import StripSequencer.Settings.Schema
import StripSequencer.Store
import StripSequencer.Strip
import StripSequencer.Text.Blank
import StripSequencer.Text.Folding
import StripSequencer.Text.Glyph
import StripSequencer.Text.Hexadecimal
import StripSequencer.Text.Numeral
import StripSequencer.Text.Printable
import StripSequencer.Text.Quoted
import StripSequencer.Toml.Document
import StripSequencer.Toml.Number
import StripSequencer.Toml.Quoted
import StripSequencer.Toml.Reader
import StripSequencer.Toml.Value
import StripSequencer.Toml.Writer
import StripSequencer.Worker
import StripSequencer.Proofs.PixelRejection
import StripSequencer.Dispatch
import StripSequencer.Proofs.Diagnostics
import StripSequencer.Proofs.Linearizability
import StripSequencer.Proofs.SendSession
import StripSequencer.Proofs.Truncation
import StripSequencer.Proofs.JournalReplay
import StripSequencer.Proofs.SessionDocuments
import StripSequencer.Handlers
import StripSequencer.Proofs.JournalOrder
import StripSequencer.Proofs.Pacing
import StripSequencer.Proofs.Progress
import StripSequencer.Proofs.LineByLine
import StripSequencer.Proofs.LoadRequest
import StripSequencer.Proofs.AppendBounds
import StripSequencer.Proofs.Operands
import StripSequencer.Proofs.StateListing
import StripSequencer.Proofs.HoverOffsets
import StripSequencer.Proofs.CursorWords
import StripSequencer.Proofs.HoverPlaces
import StripSequencer.Proofs.Completions
import StripSequencer.Proofs.SettingsApplied
import StripSequencer.Proofs.BufferWalks
import StripSequencer.Proofs.ImageFraming
import StripSequencer.Proofs.FileWrites
import StripSequencer.Proofs.DurationText
import StripSequencer.Proofs.TomlRoundTrip
import StripSequencer.Proofs.SettingsRoundTrip
