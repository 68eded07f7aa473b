import StripSequencer.Toml.Reader

/-!
# `StripSequencer.Toml.Document` — the tables that statements build

Statements build a tree of tables. A key may be given a value once. A table that was only implied, by a
key below it, may be opened once more; a key with several parts goes through the tables on its way, and
implies those that are not there.

## Contents
- `Node`: what stands at a key.
- `Builder`: the tree so far, with the keys that are implied and those that hold arrays.
- `document?`: the top table of a file.
-/

namespace StripSequencer.Toml

/-- A value that is no table. Of arrays nothing is kept. -/
inductive Scalar where
  | string (value : String)
  | integer (value : Int64)
  | float (text : String)
  | boolean (value : Bool)
  | datetime (text : String)
  | array
deriving DecidableEq, Repr

/-- What stands at a key. -/
inductive Node where
  | scalar (value : Scalar)
  | table (members : List (String × Node))
  /-- An array of tables, the newest first. -/
  | tables (elements : List (List (String × Node)))
deriving Repr

/-- The members of a table, in the order in which they were made. -/
abbrev Members := List (String × Node)

/-- The members with one set. -/
def setMember (members : Members) (name : String) (node : Node) : Members :=
  if members.any (·.1 = name) then members.map fun (n, old) => (n, if n = name then node else old)
  else members ++ [(name, node)]

/-- The table that keys below a node go to: the node's own, or the newest of an array. -/
def Node.members? : Node → Option Members
  | .table members => some members
  | .tables (newest :: _) => some newest
  | _ => none

/-- The node with the table that keys below it go to replaced. -/
def Node.withMembers (node : Node) (members : Members) : Node :=
  match node with
  | .tables (_ :: older) => .tables (members :: older)
  | _ => .table members

/-- What stands at a key. -/
def find? : Members → Key → Option Node
  | _, [] => none
  | members, [name] => members.lookup name
  | members, name :: key => do find? (← (← members.lookup name).members?) key

/-- The tree with a node put at a key. The nodes on the way have to be tables. -/
def put? : Members → Key → Node → Option Members
  | _, [], _ => none
  | members, [name], node => some (setMember members name node)
  | members, name :: key, node => do
    let parent ← members.lookup name
    let below ← put? (← parent.members?) key node
    return setMember members name (parent.withMembers below)

/-- The tree so far. -/
structure Builder where
  root : Members := []
  /-- The keys of tables that were only implied. -/
  implied : List Key := []
  /-- The keys whose value is an array. -/
  arrays : List Key := []

namespace Builder

/-- Marks a key as implied. -/
def imply (b : Builder) (key : Key) : Builder := { b with implied := key :: b.implied }

/-- Takes back that a key is implied. -/
def unimply (b : Builder) (key : Key) : Builder := { b with implied := b.implied.filter (· ≠ key) }

/-- Notes whether the value of a key is an array. -/
def note (b : Builder) (key : Key) (isArray : Bool) : Builder :=
  { b with
    arrays := if isArray then key :: b.arrays else b.arrays.filter (· ≠ key) }

/-- Puts a node at a key. -/
def put? (b : Builder) (key : Key) (node : Node) : Option Builder :=
  (Toml.put? b.root key node).map fun root => { b with root }

/-- Gives a key its value. A key that is there already has to be implied; then it stays what it is,
unless it holds an array, which is replaced. -/
def set? (b : Builder) (key : Key) (node : Node) : Option Builder :=
  match find? b.root key with
  | none => b.put? key node
  | some _ =>
    if !b.implied.contains key then none
    else if b.arrays.contains key then (b.unimply key).put? key node
    else some (b.unimply key)

/-- Makes sure that a table stands at each of the given keys, and implies those that are missing. -/
def supply? (b : Builder) : List Key → Option Builder
  | [] => some b
  | key :: keys =>
    match find? b.root key with
    | none => do (← (b.imply key).put? key (.table [])).supply? keys
    | some node => if node.members?.isSome then b.supply? keys else none

/-- The proper beginnings of a key, shortest first. -/
def parents (key : Key) : List Key := (List.range (key.length - 1)).map fun n => key.take (n + 1)

/-- Opens a table at a key. -/
def openTable? (b : Builder) (key : Key) : Option Builder := do
  (← b.supply? (parents key)).set? key (.table [])

/-- Opens one more table of an array of tables. -/
def openElement? (b : Builder) (key : Key) : Option Builder := do
  let b ← b.supply? (parents key)
  match find? b.root key with
  | none => b.put? key (.tables [[]])
  | some (.tables elements) => b.put? key (.tables ([] :: elements))
  | some _ => none

/-- Goes through the tables on the way of a key with several parts, below `context`. -/
def pass? (b : Builder) (context : Key) : Key → Option Builder
  | [] | [_] => some b
  | part :: key => do
    let context := context ++ [part]
    (← (b.imply context).openTable? context).pass? context key

mutual

/-- Goes through a value at a key: an inline table is built in place, and an array is searched for
inline tables, each of which is built as an element. -/
def value? (key : Key) (inArray : Bool) (b : Builder) : Value → Option (Builder × Node)
  | .string value => some (b, .scalar (.string value))
  | .integer value => some (b, .scalar (.integer value))
  | .float text => some (b, .scalar (.float text))
  | .boolean value => some (b, .scalar (.boolean value))
  | .datetime text => some (b, .scalar (.datetime text))
  | .array items => do
    let b ← items? key (b.note key true) items
    return (b, .scalar .array)
  | .inlineTable entries => do
    let b := b.imply key
    let b ← if inArray then b.openElement? key else b.openTable? key
    let b ← entries? key b entries
    return (b, .table [])

/-- Goes through the items of an array at a key. -/
def items? (key : Key) (b : Builder) : List Value → Option Builder
  | [] => some b
  | item :: items => do
    let (b, _) ← value? key true b item
    items? key b items

/-- Gives keys below `context` their values. -/
def entries? (context : Key) (b : Builder) : List (Key × Value) → Option Builder
  | [] => some b
  | (key, value) :: entries => do
    let b ← b.pass? context key
    let full := context ++ key
    let (b, node) ← value? full false b value
    let b ← b.set? full node
    entries? context (b.note full (node matches .scalar .array)) entries

end

/-- Carries out statements; `context` is the key of the table that was opened last. -/
def run? (b : Builder) (context : Key) : List Statement → Option Builder
  | [] => some b
  | .table key :: statements => do ((← b.openTable? key).note key false).run? key statements
  | .arrayTable key :: statements => do ((← b.openElement? key).note key false).run? key statements
  | .entry key value :: statements => do
    (← entries? context b [(key, value)]).run? context statements

end Builder

/-- The top table that statements build. -/
def build? (statements : List Statement) : Option Members :=
  (({} : Builder).run? [] statements).map Builder.root

/-- The top table of a file. -/
def document? (data : List UInt8) : Option Members := (statementsOfBytes? data).bind build?

end StripSequencer.Toml
