import StripSequencer.LanguageServer.Message
import StripSequencer.Text.Blank

/-!
# `StripSequencer.LanguageServer.Wire` — the server on a stream of bytes

Messages come and go as JSON in frames: a header with the length of the body, an empty line, and the body.
A message with an `id` is answered; one without is not. The stream is served until it ends, until a frame
cannot be read, or until the client says `exit`.

## Contents
- `frame` and `readFrame`: frames.
- `Call`: a message from the client.
- `serveBody?` and `serve`: what is sent in answer to one frame, and to a stream.
-/

namespace StripSequencer.LanguageServer

/-! ## Frames -/

/-- What stands before the length in a header. -/
def lengthHeader : String := "Content-Length: "

/-- A body with its header. -/
def frame (body : String) : String :=
  lengthHeader ++ toString body.utf8ByteSize ++ "\r\n\r\n" ++ body

/-- Reads a line that ends with a carriage return and a line feed. -/
def readLine (data : List UInt8) : Option (List UInt8 × List UInt8) :=
  match data.dropWhile (· ≠ 0x0D) with
  | 0x0D :: 0x0A :: rest => some (data.takeWhile (· ≠ 0x0D), rest)
  | _ => none

/-- A number of at most 32 bits in decimal digits. -/
def lengthValue? (digits : String) : Option Nat :=
  if digits.isEmpty || !digits.all Char.isDigit then none
  else digits.toNat?.filter (· < UInt32.size)

/-- Reads a header up to its empty line, and gives the length of the body. The last length counts, and
lines about other things are passed over. The first argument bounds the number of lines. -/
def readHeader : Nat → Nat → List UInt8 → Option (Nat × List UInt8)
  | 0, _, _ => none
  | fuel + 1, length, data => do
    let (line, rest) ← readLine data
    let text := Text.ofBytes line
    if line.isEmpty then
      if length = 0 then none else return (length, rest)
    else if (Text.ofString lengthHeader).isPrefixOf text then
      readHeader fuel (← lengthValue? (Text.trim (text.drop lengthHeader.length)).display) rest
    else readHeader fuel length rest

/-- Reads a frame, and gives its body and what follows it. -/
def readFrame (data : List UInt8) : Option (List UInt8 × List UInt8) := do
  let (length, rest) ← readHeader data.length 0 data
  return (rest.take length, rest.drop length)

/-! ## Messages -/

/-- A message from the client. -/
structure Call where
  /-- What the answer is marked with; a message without it is not answered. -/
  id : Option Json
  method : String
  params : Option Json

/-- The member of that name that counts: the last one. -/
def lastMember? (name : String) : Json → Option Json
  | .object members => ((members.filter (·.1 = name)).map Prod.snd).getLast?
  | _ => none

/-- The mark of an answer: a text, or a number of 64 bits without sign. -/
def markOf? : Option Json → Option (Option Json)
  | none | some .null => some none
  | some (.string s) => some (some (.string s))
  | some j => if integerWithin 0 (UInt64.size - 1) j then some (some j) else none

/-- The message that a body holds; a body may also hold an answer, which is no call. -/
def readCall (body : List UInt8) : Option (Option Call) := do
  let j ← Json.parse? (Text.ofBytes body).display
  let answered := (lastMember? "result" j).isSome || isGiven ["error"] j
  match lastMember? "method" j with
  | some (.string method) =>
    if answered then none
    else return some ⟨← markOf? (lastMember? "id" j), method, lastMember? "params" j⟩
  | none | some .null => if answered then return none else none
  | some _ => none

/-! ## Answers -/

/-- The number of a rejection. -/
def Rejection.code : Rejection → Int
  | .notReady => -32600
  | .unknownMethod _ => -32601
  | .invalidParams => -32602

/-- The words for a rejection. -/
def Rejection.message : Rejection → String
  | .notReady => notReadyText
  | .unknownMethod name => "method not supported: " ++ name
  | .invalidParams => "invalid params"

/-- The frame that answers a call. -/
def responseFrame (id : Json) (reply : Except Rejection Reply) : String :=
  let body :=
    match reply with
    | .ok reply => ("result", reply.json)
    | .error e => ("error", .object [("code", Json.ofInt e.code), ("message", .string e.message)])
  frame (Json.compact (.object [("id", id), body, ("jsonrpc", .string "2.0")]))

/-- The frame that publishes diagnostics. -/
def publicationFrame (p : Publication) : String :=
  frame (Json.compact (.object
    [("jsonrpc", .string "2.0"), ("method", .string publishMethod), ("params", p.json)]))

/-- All that is sent in answer to a call. -/
def sent (id : Option Json) (got : Received) : String :=
  (id.map fun id => responseFrame id got.reply).getD "" ++ String.join (got.published.map publicationFrame)

/-- The method that ends a session. -/
def exitMethod : String := "exit"

/-- What is sent in answer to a body, and the session after it; nothing, if the body ends the session. -/
def serveBody? (s : Session) (body : List UInt8) : Option (String × Session) :=
  match readCall body with
  | none => none
  | some none => some ("", s)
  | some (some call) =>
    if call.method = exitMethod then none
    else
      let got := s.receive .standard call.method call.params
      some (sent call.id got, got.session)

/-- Serves a stream; the first argument bounds the number of frames. -/
def serveFrames : Nat → Session → List UInt8 → String
  | 0, _, _ => ""
  | fuel + 1, s, data =>
    match readFrame data with
    | none => ""
    | some (body, rest) =>
      match serveBody? s body with
      | none => ""
      | some (text, s) => text ++ serveFrames fuel s rest

/-- All that is sent in answer to a stream of bytes. -/
def serve (s : Session) (data : List UInt8) : String := serveFrames data.length s data

end StripSequencer.LanguageServer
