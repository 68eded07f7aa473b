import StripSequencer.CommandLine.Transcript
import StripSequencer.Duration

/-!
# `StripSequencer.Control.Options` — the flags of the control tool

Flags may stand anywhere among the arguments. A flag has a long name after two hyphens and may have a
letter after one; its value follows after `=`, right after the letter, or as the next argument. A switch
needs no value. All after `--` is no flag.

## Contents
- `Flag`, `Options`, and `FlagError` with its words.
- `Options.parse`: the options and the other arguments.
- `words`, `without`: the arguments that are no flags, as far as can be told before flags are read.
-/

namespace StripSequencer.Control

/-- The flags of the tool. -/
inductive Flag where
  | address
  | grpc
  | timeout
  | help
  | version
deriving DecidableEq, Repr

namespace Flag

/-- The long name. -/
def name : Flag → String
  | .address => "addr"
  | .grpc => "grpc"
  | .timeout => "timeout"
  | .help => "help"
  | .version => "version"

/-- The letter. -/
def letter? : Flag → Option Char
  | .address => some 'a'
  | .help => some 'h'
  | .version => some 'v'
  | .grpc | .timeout => none

/-- The flag needs no value. -/
def isSwitch : Flag → Bool
  | .address | .timeout => false
  | .grpc | .help | .version => true

/-- The flag as messages name it. -/
def label (f : Flag) : String :=
  match f.letter? with
  | some c => "-" ++ String.singleton c ++ ", --" ++ f.name
  | none => "--" ++ f.name

/-- The flags that every command has. -/
def shared : List Flag := [.address, .grpc, .timeout]

/-- The flag with a long name. -/
def named? (known : List Flag) (name : String) : Option Flag := known.find? (·.name = name)

/-- The flag with a letter. -/
def lettered? (known : List Flag) (c : Char) : Option Flag := known.find? (·.letter? = some c)

end Flag

/-- What the flags say. -/
structure Options where
  address : String := "localhost:4568"
  grpc : Bool := false
  timeout : Duration := .ofMilliseconds 5000
  help : Bool := false
  version : Bool := false
deriving DecidableEq, Repr

/-! ## Errors -/

/-- What is wrong with a flag. -/
inductive FlagError where
  | unknown (name : String)
  | unknownLetter (letters : List Char)
  | needsValue (name : String)
  | letterNeedsValue (letter : Char)
  | malformed (argument : String)
  | badValue (value : String) (flag : Flag) (why : String)
deriving DecidableEq, Repr

/-- A letter between single quotes. Only the first byte of a letter beyond ASCII is looked at. -/
def quotedLetter (c : Char) : String :=
  let shown := if c.toNat < 0x80 then c else Char.ofNat 0xC3
  let body :=
    if shown = '\'' then "\\'"
    else if shown = '"' then "\""
    else (Glyph.char shown).escaped
  "'" ++ body ++ "'"

/-- The words for what is wrong with a flag. -/
def FlagError.message : FlagError → String
  | .unknown name => "unknown flag: --" ++ name
  | .unknownLetter letters =>
    "unknown shorthand flag: " ++ quotedLetter (letters.headD ' ') ++ " in -" ++ String.ofList letters
  | .needsValue name => "flag needs an argument: --" ++ name
  | .letterNeedsValue letter =>
    "flag needs an argument: " ++ quotedLetter letter ++ " in -" ++ String.singleton letter
  | .malformed argument => "bad flag syntax: " ++ argument
  | .badValue value flag why =>
    "invalid argument " ++ (Text.ofString value).quoted ++ " for " ++ (Text.ofString flag.label).quoted
      ++ " flag: " ++ why

/-! ## Reading one argument -/

/-- What an argument says. -/
inductive Reading where
  | positional
  /-- All that follows is positional. -/
  | endOfFlags
  /-- Flags with their values. -/
  | values (given : List (Flag × String))
  /-- Flags with their values, and one whose value is the next argument. -/
  | pending (given : List (Flag × String)) (flag : Flag) (missing : FlagError)

/-- Reads letters after one hyphen; `given` holds the switches so far, last first. -/
def readLetters (known : List Flag) (given : List (Flag × String)) : List Char → Except FlagError Reading
  | [] => .ok (.values given.reverse)
  | c :: rest =>
    match Flag.lettered? known c with
    | none => .error (.unknownLetter (c :: rest))
    | some f =>
      match rest with
      | '=' :: d :: value => .ok (.values ((f, String.ofList (d :: value)) :: given).reverse)
      | _ =>
        if f.isSwitch then readLetters known ((f, "true") :: given) rest
        else if rest.isEmpty then .ok (.pending given.reverse f (.letterNeedsValue c))
        else .ok (.values ((f, String.ofList rest) :: given).reverse)

/-- Reads a long flag without its hyphens. -/
def readLong (known : List Flag) (argument : String) (body : List Char) : Except FlagError Reading :=
  let name := String.ofList (body.takeWhile (· ≠ '='))
  if name.isEmpty || name.startsWith "-" then .error (.malformed argument)
  else
    match Flag.named? known name with
    | none => .error (.unknown name)
    | some f =>
      match body.dropWhile (· ≠ '=') with
      | _ :: value => .ok (.values [(f, String.ofList value)])
      | [] => .ok (if f.isSwitch then .values [(f, "true")] else .pending [] f (.needsValue name))

/-- Reads an argument. -/
def readArgument (known : List Flag) (argument : String) : Except FlagError Reading :=
  match argument.toList with
  | ['-', '-'] => .ok .endOfFlags
  | '-' :: '-' :: body => readLong known argument body
  | '-' :: c :: letters => readLetters known [] (c :: letters)
  | _ => .ok .positional

/-! ## Reading all arguments -/

/-- The truth value of a switch. -/
def switchValue (f : Flag) (value : String) : Except FlagError Bool :=
  match CommandLine.truthValue? value with
  | some b => .ok b
  | none =>
    .error (.badValue value f
      ("strconv.ParseBool: parsing " ++ (Text.ofString value).quoted ++ ": invalid syntax"))

namespace Options

/-- The options with a flag set. -/
def set (o : Options) (given : Flag × String) : Except FlagError Options :=
  let (f, value) := given
  match f with
  | .address => .ok { o with address := value }
  | .grpc => (switchValue f value).map fun b => { o with grpc := b }
  | .timeout =>
    match Duration.parse value with
    | .ok d => .ok { o with timeout := d }
    | .error e => .error (.badValue value f e.message)
  | .help => (switchValue f value).map fun b => { o with help := b }
  | .version => (switchValue f value).map fun b => { o with version := b }

/-- Reads arguments; `seen` holds the positional ones so far, last first. -/
def parseFrom (known : List Flag) (o : Options) (seen : List String) :
    List String → Except FlagError (Options × List String)
  | [] => .ok (o, seen.reverse)
  | argument :: rest =>
    match readArgument known argument with
    | .error e => .error e
    | .ok .positional => parseFrom known o (argument :: seen) rest
    | .ok .endOfFlags => .ok (o, seen.reverse ++ rest)
    | .ok (.values given) =>
      match given.foldlM set o with
      | .error e => .error e
      | .ok o => parseFrom known o seen rest
    | .ok (.pending given f missing) =>
      match given.foldlM set o, rest with
      | .error e, _ => .error e
      | .ok _, [] => .error missing
      | .ok o, value :: rest =>
        match o.set (f, value) with
        | .error e => .error e
        | .ok o => parseFrom known o seen rest

/-- The options and the positional arguments. -/
def parse (known : List Flag) (arguments : List String) : Except FlagError (Options × List String) :=
  parseFrom known {} [] arguments

end Options

/-! ## Words among the arguments -/

/-- The argument looks like a flag whose value is the next argument. Flags that are not shared by all
commands are taken for such. -/
def takesNext (argument : String) : Bool :=
  !argument.contains '=' &&
    match argument.toList with
    | '-' :: '-' :: name => !(Flag.named? Flag.shared (String.ofList name)).any Flag.isSwitch
    | ['-', c] => c.toNat < 0x80 && !(Flag.lettered? Flag.shared c).any Flag.isSwitch
    | _ => false

/-- The arguments that are neither flags nor their values. -/
def words : List String → List String
  | [] => []
  | argument :: rest =>
    if argument = "--" then []
    else if takesNext argument then
      match rest with
      | _ :: next :: more => words (next :: more)
      | _ => []
    else if argument ≠ "" && !argument.startsWith "-" then argument :: words rest
    else words rest

/-- The arguments without the first that is the given word. -/
def without (word : String) : List String → List String
  | [] => []
  | argument :: rest =>
    if argument = "--" then argument :: rest
    else if takesNext argument then
      match rest with
      | [] => [argument]
      | value :: more => argument :: value :: without word more
    else if argument = word then rest
    else argument :: without word rest

end StripSequencer.Control
