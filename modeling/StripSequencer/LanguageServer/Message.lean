import StripSequencer.LanguageServer.Framework
import StripSequencer.Text.Folding

/-!
# `StripSequencer.LanguageServer.Message` — requests and answers as JSON

A request comes as the name of a method and its parameters. The parameters are checked against a shape:
members that the shape does not name are passed over, names are equal up to case, and `null` stands for a
missing value everywhere.

## Contents
- `Shape`, and the shape of the parameters of each method.
- `Framework.standard`: the framework that checks parameters against their shapes.
- The JSON of replies and publications.
-/

namespace StripSequencer.LanguageServer

/-- The name of the server. -/
def serverName : String := "ledseq-lsp"

/-- The version of the server. -/
def serverVersion : String := "0.1.0"

/-! ## Shapes -/

/-- What a JSON value has to look like. -/
inductive Shape where
  | any
  | text
  /-- An integer of 32 bits without sign. -/
  | unsigned
  /-- An integer of 32 bits with sign. -/
  | signed
  /-- A signed integer or a text. -/
  | token
  | list (item : Shape)
  | record (fields : List (String × Shape))

/-- The number is written as an integer between two bounds; `-0` is one only if negative ones are. -/
def integerWithin (low high : Int) (number : Json) : Bool :=
  match number with
  | .number text =>
    (low < 0 || !text.startsWith "-") && number.integer?.any fun n => low ≤ n && n ≤ high
  | _ => false

/-- An integer of 32 bits with sign. -/
def isSigned (j : Json) : Bool := integerWithin Int32.minValue.toInt Int32.maxValue.toInt j

mutual

/-- The value has the shape. -/
def Shape.accepts : Shape → Json → Bool
  | _, .null => true
  | .any, _ => true
  | .text, j => j.string?.isSome
  | .unsigned, j => integerWithin 0 (UInt32.size - 1) j
  | .signed, j => isSigned j
  | .token, j => isSigned j || j.string?.isSome
  | .list item, .array items => items.all fun j => item.accepts j
  | .list _, _ => false
  | .record fields, .object members => members.all fun (name, value) => fieldAccepts fields name value
  | .record _, _ => false

/-- A member has the shape of the field it is named for, if there is one. -/
def fieldAccepts : List (String × Shape) → String → Json → Bool
  | [], _, _ => true
  | (field, shape) :: fields, name, value =>
    if sameName field name then shape.accepts value else fieldAccepts fields name value

end

/-! ## Look-ups -/

/-- The values of the members of that name. -/
def valuesOf (name : String) : Json → List Json
  | .object members => (members.filter fun (n, _) => sameName name n).map Prod.snd
  | _ => []

/-- The values at a path of names. -/
def valuesAt (path : List String) (j : Json) : List Json :=
  path.foldl (fun values name => values.flatMap (valuesOf name)) [j]

/-- The text at a path: the last one that is given, or the empty text. -/
def textAt (path : List String) (j : Json) : String :=
  ((valuesAt path j).filterMap Json.string?).getLast?.getD ""

/-- The number at a path: the last one that is given, or zero. -/
def numberAt (path : List String) (j : Json) : Nat :=
  (((valuesAt path j).filterMap Json.integer?).getLast?.getD 0).toNat

/-- The items at a path. -/
def itemsAt (path : List String) (j : Json) : List Json :=
  ((valuesAt path j).getLast?.bind Json.items?).getD []

/-- Something other than `null` stands at a path. -/
def isGiven (path : List String) (j : Json) : Bool :=
  match (valuesAt path j).getLast? with
  | none | some .null => false
  | some _ => true

/-! ## Methods -/

namespace Method

/-- A line and a column. -/
def place : Shape := .record [("line", .unsigned), ("character", .unsigned)]

/-- The start and the end of a part of a document. -/
def extent : Shape := .record [("start", place), ("end", place)]

/-- The fields of a request about a position of a document. -/
def positionFields : List (String × Shape) :=
  [("textDocument", .record [("uri", .text)]), ("position", place), ("workDoneToken", .token)]

/-- The shape of the parameters of a method; without one they are not looked at. -/
def shape? : Method → Option Shape
  | .start => some <| .record [
      ("processId", .signed),
      ("clientInfo", .record [("name", .text), ("version", .text)]),
      ("locale", .text), ("rootPath", .text), ("rootUri", .text),
      ("capabilities", .record [("workspace", .record []), ("textDocument", .record []),
        ("window", .record []), ("general", .record [])]),
      ("trace", .text),
      ("workspaceFolders", .list (.record [("uri", .text), ("name", .text)])),
      ("workDoneToken", .token)]
  | .started => some (.record [])
  | .shutdown => none
  | .setTrace => some (.record [("value", .text)])
  | .didOpen => some <| .record [("textDocument", .record
      [("uri", .text), ("languageId", .text), ("version", .signed), ("text", .text)])]
  | .didChange => some <| .record [
      ("textDocument", .record [("uri", .text), ("version", .signed)]),
      ("contentChanges", .list (.record [("range", extent), ("rangeLength", .unsigned), ("text", .text)]))]
  | .didClose => some (.record [("textDocument", .record [("uri", .text)])])
  | .completion => some <| .record (positionFields ++ [
      ("partialResultToken", .token),
      ("context", .record [("triggerKind", .signed), ("triggerCharacter", .text)])])
  | .hover => some (.record positionFields)

/-- The parameters have the shape that the method asks for. -/
def accepts (m : Method) (params : Option Json) : Bool :=
  match m.shape?, params with
  | none, _ => true
  | some shape, some params => shape.accepts params
  | some _, none => false

end Method

/-- The change that an item of a list of changes describes. -/
def changeOf (j : Json) : Change :=
  if isGiven ["range"] j then .ranged else .whole (Text.ofString (textAt ["text"] j))

/-- The request that a method with parameters makes. -/
def requestOf (params : Json) : Method → Request
  | .start => .start
  | .started => .started
  | .shutdown => .shutdown
  | .setTrace => .setTrace
  | .didOpen => .didOpen uri (Text.ofString (textAt ["textDocument", "text"] params))
  | .didChange => .didChange uri ((itemsAt ["contentChanges"] params).map changeOf)
  | .didClose => .didClose uri
  | .completion => .completion uri position
  | .hover => .hover uri position
where
  uri : String := textAt ["textDocument", "uri"] params
  position : Position := ⟨numberAt ["position", "line"] params, numberAt ["position", "character"] params⟩

/-- The framework that the server is built on: `initialize` begins a session and `shutdown` ends it, all other requests
are let in between the two, and parameters are checked against the shape of the method. -/
def Framework.standard : Framework where
  admits ready method := ready || method = Method.start.name
  readyAfter ready
    | .start => true
    | .shutdown => false
    | _ => ready
  request? m params := if m.accepts params then some (requestOf (params.getD .null) m) else none

/-! ## Answers as JSON -/

/-- What the server can do: documents are sent whole, and words are completed and explained. -/
def capabilitiesJson : Json :=
  .object [
    ("capabilities", .object [
      ("textDocumentSync", .object [("openClose", .bool true), ("change", Json.ofNat 1)]),
      ("completionProvider", .object []),
      ("hoverProvider", .bool true)]),
    ("serverInfo", .object [("name", .string serverName), ("version", .string serverVersion)])]

/-- The number of the kind of completion that is a keyword. -/
def keywordKind : Nat := 14

/-- A completion as JSON. -/
def completionJson (op : Opcode) : Json :=
  .object [("label", .string op.mnemonic), ("kind", Json.ofNat keywordKind),
    ("detail", .string (completionDetail op)), ("insertText", .string op.mnemonic)]

/-- A reply as JSON. -/
def Reply.json : Reply → Json
  | .capabilities => capabilitiesJson
  | .done => .null
  | .completions [] => .null
  | .completions ops => .array (ops.map completionJson)
  | .hover none => .null
  | .hover (some h) =>
    .object [("contents", .object [("kind", .string "markdown"), ("value", .string h.text)])]

/-- A place as JSON. -/
def placeJson (line column : Nat) : Json :=
  .object [("line", Json.ofNat line), ("character", Json.ofNat column)]

/-- A diagnostic as JSON; it spans its whole line. -/
def Diagnostic.json (d : Diagnostic) : Json :=
  .object [
    ("range", .object [("start", placeJson d.line 0), ("end", placeJson d.line d.width)]),
    ("severity", Json.ofNat d.problem.severity),
    ("source", .string serverName),
    ("message", .string d.problem.message)]

/-- The method by which diagnostics are published. -/
def publishMethod : String := "textDocument/publishDiagnostics"

/-- A publication as the parameters of a notification. -/
def Publication.json (p : Publication) : Json :=
  .object [("uri", .string p.uri), ("diagnostics", .array (p.diagnostics.map Diagnostic.json))]

end StripSequencer.LanguageServer
