import StripSequencer.Json
import StripSequencer.LanguageServer.Session

/-!
# `StripSequencer.LanguageServer.Framework` — from messages to requests

A message is the name of a method with parameters. The server leaves it to a framework to decide which messages reach
its handlers, to keep count of starts and shutdowns, and to read parameters; here the framework is a parameter. What
the server relies on is said in `Framework.Lawful`.

## Contents
- `Method`: the methods that the server handles.
- `Framework`, with its laws `Framework.Lawful`.
- `Session.handle`, `Session.receive`: what is answered to a request, and to a message.
-/

namespace StripSequencer.LanguageServer

/-- The methods that the server knows. -/
inductive Method where
  | start
  | started
  | shutdown
  | setTrace
  | didOpen
  | didChange
  | didClose
  | completion
  | hover
deriving DecidableEq, Repr

namespace Method

/-- The name of a method. -/
def name : Method → String
  | .start => "initialize"
  | .started => "initialized"
  | .shutdown => "shutdown"
  | .setTrace => "$/setTrace"
  | .didOpen => "textDocument/didOpen"
  | .didChange => "textDocument/didChange"
  | .didClose => "textDocument/didClose"
  | .completion => "textDocument/completion"
  | .hover => "textDocument/hover"

/-- All methods. -/
def every : List Method :=
  [.start, .started, .shutdown, .setTrace, .didOpen, .didChange, .didClose, .completion, .hover]

/-- The method with a name. -/
def ofName? (name : String) : Option Method := every.find? (·.name = name)

end Method

/-- The method that makes a request. -/
def Request.method : Request → Method
  | .start => .start
  | .started => .started
  | .shutdown => .shutdown
  | .setTrace => .setTrace
  | .didOpen .. => .didOpen
  | .didChange .. => .didChange
  | .didClose _ => .didClose
  | .completion .. => .completion
  | .hover .. => .hover

/-! ## Frameworks -/

/-- What is decided before a message comes to its handler. -/
structure Framework where
  /-- A message with this method is let in, by a session that is ready or is not. -/
  admits : Bool → String → Bool
  /-- The session is ready after a method was handled. -/
  readyAfter : Bool → Method → Bool
  /-- The request that a method makes with parameters, if they can be read. -/
  request? : Method → Option Json → Option Request

/-- What the server relies on: a session is ready from its start to its shutdown, a session that is not ready can only
be started, and parameters are read as those of their method. Which parameters can be read is not said. -/
structure Framework.Lawful (f : Framework) : Prop where
  admits_start : ∀ ready, f.admits ready Method.start.name = true
  admits_ready : ∀ method, f.admits true method = true
  admits_unready : ∀ method, method ≠ Method.start.name → f.admits false method = false
  ready_start : ∀ ready, f.readyAfter ready .start = true
  ready_shutdown : ∀ ready, f.readyAfter ready .shutdown = false
  ready_other : ∀ ready m, m ≠ .start → m ≠ .shutdown → f.readyAfter ready m = ready
  request_method : ∀ m params r, f.request? m params = some r → r.method = m

/-! ## Answers -/

/-- Answers a request, if it is let in. -/
def Session.handle (f : Framework) (s : Session) (r : Request) : Handled :=
  if f.admits s.ready r.method.name then
    let handled := s.answer r
    { handled with session := { handled.session with ready := f.readyAfter s.ready r.method } }
  else ⟨s, none, []⟩

/-- Why a message is not answered. -/
inductive Rejection where
  | notReady
  | unknownMethod (name : String)
  | invalidParams
deriving DecidableEq, Repr

/-- The words for a session that is not ready. -/
def notReadyText : String := "server not initialized"

/-- What a message leads to. -/
structure Received where
  session : Session
  reply : Except Rejection Reply
  published : List Publication := []

/-- Receives a method with its parameters. -/
def Session.receive (f : Framework) (s : Session) (method : String) (params : Option Json) : Received :=
  if !f.admits s.ready method then ⟨s, .error .notReady, []⟩
  else
    match Method.ofName? method with
    | none => ⟨s, .error (.unknownMethod method), []⟩
    | some m =>
      match f.request? m params with
      | none => ⟨s, .error .invalidParams, []⟩
      | some r =>
        let handled := s.handle f r
        match handled.reply with
        | none => ⟨handled.session, .error .notReady, handled.published⟩
        | some reply => ⟨handled.session, .ok reply, handled.published⟩

end StripSequencer.LanguageServer
