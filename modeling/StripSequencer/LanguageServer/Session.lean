import StripSequencer.LanguageServer.Cursor
import StripSequencer.LanguageServer.Diagnostic

/-!
# `StripSequencer.LanguageServer.Session` — the server's side of an editing session

A session holds the open documents; they outlive a shutdown. Whenever a document changes, its diagnostics are
published.

## Contents
- `Session`, `Request`, `Reply`.
- `Session.answer`: the answer to a request, the session after it, and what it publishes.
-/

namespace StripSequencer.LanguageServer

/-- One change of a document. -/
inductive Change where
  /-- The document gets a new text. -/
  | whole (text : Text)
  /-- A range of the document gets a new text. -/
  | ranged
deriving DecidableEq, Repr

/-- What a client asks for. Documents are named by their URI. -/
inductive Request where
  | start
  | started
  | shutdown
  | setTrace
  | didOpen (uri : String) (text : Text)
  | didChange (uri : String) (changes : List Change)
  | didClose (uri : String)
  | completion (uri : String) (position : Position)
  | hover (uri : String) (position : Position)
deriving DecidableEq, Repr

/-- The answer to a request. -/
inductive Reply where
  /-- What the server can do. -/
  | capabilities
  | done
  | completions (candidates : List Opcode)
  | hover (found : Option Hover)
deriving DecidableEq, Repr

/-- The diagnostics of a document, as they are sent to the client. -/
structure Publication where
  uri : String
  diagnostics : List Diagnostic
deriving DecidableEq, Repr

/-- A session. -/
structure Session where
  /-- The capacity that documents are checked against. -/
  capacity : Int
  /-- The session was started, as far as the framework knows. -/
  ready : Bool := false
  documents : List (String × Text) := []
deriving DecidableEq, Repr

/-- The answer to a request, with the session after it and what is published. A request that is not let in has no
answer. -/
structure Handled where
  session : Session
  reply : Option Reply
  published : List Publication := []
deriving DecidableEq, Repr

namespace Session

/-- The text of a document. -/
def document? (s : Session) (uri : String) : Option Text := s.documents.lookup uri

/-- The session with a document set. -/
def setDocument (s : Session) (uri : String) (text : Text) : Session :=
  { s with documents := (uri, text) :: s.documents.filter (·.1 ≠ uri) }

/-- The session without a document. -/
def dropDocument (s : Session) (uri : String) : Session :=
  { s with documents := s.documents.filter (·.1 ≠ uri) }

/-- Sets a document and publishes its diagnostics. -/
def store (s : Session) (uri : String) (text : Text) : Handled :=
  ⟨s.setDocument uri text, some .done, [⟨uri, diagnose s.capacity text⟩]⟩

/-- Answers a request that is let in. -/
def answer (s : Session) : Request → Handled
  | .start => ⟨s, some .capabilities, []⟩
  | .started | .setTrace | .shutdown => ⟨s, some .done, []⟩
  | .didOpen uri text => s.store uri text
  | .didChange uri changes =>
    match changes.getLast? with
    | some (.whole text) => s.store uri text
    | _ => ⟨s, some .done, []⟩
  | .didClose uri => ⟨s.dropDocument uri, some .done, [⟨uri, []⟩]⟩
  | .completion uri p =>
    ⟨s, some (.completions (((s.document? uri).map fun t => LanguageServer.completions t p).getD [])), []⟩
  | .hover uri p => ⟨s, some (.hover ((s.document? uri).bind (hover? · p))), []⟩

end Session

end StripSequencer.LanguageServer
