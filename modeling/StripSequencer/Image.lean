import StripSequencer.Cbor.Value
import StripSequencer.FileTree
import StripSequencer.Sequencer
import StripSequencer.Text.Quoted

/-!
# `StripSequencer.Image` — programs as files

A program image is a CBOR map with the integer keys 1 to 5: a magic word, the format's version, the
capacity of the buffer it was taken from, the length of the strip, and the code.

## Contents
- `Image`, `Image.encode`, `Image.ofSequencer`.
- `Image.validate` and `Image.decode`, with `Image.Error`.
- `Image.readFrom`, `Image.writeTo`.
-/

namespace StripSequencer

/-- A program with what it was taken from. -/
structure Image where
  magic : Text
  version : UInt16
  capacity : Int64
  leds : UInt8
  code : Option (List UInt8)
deriving DecidableEq, Repr

namespace Image

/-- The word that every image starts with. -/
def magicWord : Text := .ofString "LSEQ"

/-- The version of the format. -/
def currentVersion : UInt16 := 1

/-- The image without any field. -/
def zero : Image := ⟨[], 0, 0, 0, none⟩

/-- The image of code. -/
def ofCode (code : List UInt8) (capacity : Int64) : Image :=
  ⟨magicWord, currentVersion, capacity, 0, some code⟩

/-- The image of the program that a sequencer holds. -/
def ofSequencer (s : Sequencer) : Image where
  magic := magicWord
  version := currentVersion
  capacity := Int64.ofNat s.store.capacity
  leds := s.rules.leds
  code := some s.program

/-- The bytes of the program; an image without code has none. -/
def program (img : Image) : List UInt8 := img.code.getD []

/-! ## Writing -/

/-- The fields of an image, by number. -/
inductive Field where
  | magic
  | version
  | capacity
  | leds
  | code
deriving DecidableEq, Repr

namespace Field

/-- The number of a field. -/
def number : Field → Nat
  | .magic => 1
  | .version => 2
  | .capacity => 3
  | .leds => 4
  | .code => 5

/-- All fields. -/
def every : List Field := [.magic, .version, .capacity, .leds, .code]

/-- The field with a number. -/
def ofNumber? (n : Nat) : Option Field := every.find? (·.number = n)

/-- The field whose number a text spells. -/
def ofName? (name : String) : Option Field := every.find? (toString ·.number = name)

end Field

/-- The value of a field. -/
def item (img : Image) : Field → Cbor.Item
  | .magic => .text [img.magic.bytes]
  | .version => .unsigned img.version.toNat
  | .capacity => .ofInt img.capacity.toInt
  | .leds => .unsigned img.leds.toNat
  | .code =>
    match img.code with
    | none => .null
    | some code => .bytes [code]

/-- The fields that are written; the length of the strip is left out when it is zero. -/
def written (img : Image) : List Field :=
  if img.leds = 0 then [.magic, .version, .capacity, .code] else Field.every

/-- The map of an image. -/
def toItem (img : Image) : Cbor.Item :=
  .map (img.written.flatMap fun f => [.unsigned f.number, img.item f])

/-- The bytes of an image. -/
def encode (img : Image) : List UInt8 := img.toItem.encode

/-! ## Checking -/

/-- Why bytes are no acceptable image. -/
inductive Error where
  | encoding (flaw : Cbor.Flaw)
  | badMagic (magic : Text)
  | badVersion (version : UInt16)
  | tooLong (length : Nat) (capacity : Int64)
  | corrupt (flaw : Program.Flaw)
deriving DecidableEq, Repr

/-- The report of an error. -/
def Error.failure : Error → Failure
  | .encoding flaw => ⟨"image: unmarshal: " ++ flaw.message, []⟩
  | .badMagic magic =>
    ⟨"image: magic " ++ magic.quoted ++ ": " ++ Cause.badMagic.text, [.badMagic]⟩
  | .badVersion version =>
    ⟨"image: version " ++ toString version.toNat ++ ": " ++ Cause.badVersion.text, [.badVersion]⟩
  | .tooLong length capacity =>
    ⟨"image: " ++ toString length ++ " byte program, capacity " ++ toString capacity.toInt ++ ": "
      ++ Cause.capacityExceeded.text, [.capacityExceeded]⟩
  | .corrupt flaw => ⟨"image: " ++ flaw.message, [.corruptProgram]⟩

/-- Accepts an image with the right header whose code is a program that fits the recorded capacity. A
capacity that is not positive sets no limit. -/
def validate (img : Image) : Except Error Unit :=
  if img.magic ≠ magicWord then .error (.badMagic img.magic)
  else if img.version ≠ currentVersion then .error (.badVersion img.version)
  else if 0 < img.capacity ∧ img.capacity.toInt < img.program.length then
    .error (.tooLong img.program.length img.capacity)
  else
    match Program.validate img.program with
    | .error flaw => .error (.corrupt flaw)
    | .ok () => .ok ()

/-! ## Reading -/

/-- The image with a field decoded from an item. -/
def setField (img : Image) (f : Field) (item : Cbor.Item) : Except Cbor.Flaw Image :=
  match f with
  | .magic => item.decodeText.map fun magic => { img with magic := .ofString magic }
  | .version => (item.decodeInt 0 (UInt16.size - 1)).map fun n => { img with version := UInt16.ofInt n }
  | .capacity =>
    (item.decodeInt Int64.minValue.toInt Int64.maxValue.toInt).map fun n =>
      { img with capacity := Int64.ofInt n }
  | .leds => (item.decodeInt 0 (UInt8.size - 1)).map fun n => { img with leds := UInt8.ofInt n }
  | .code => item.decodeBytes.map fun code => { img with code }

/-- The field that a key names: by its number, as an integer or as text. Other keys of these types name
none. -/
def keyField? : Cbor.Item → Except Cbor.Flaw (Option Field)
  | .unsigned n => .ok (Field.ofNumber? n)
  | .negative n => if n < UInt64.size / 2 then .ok none else .error .mismatch
  | .text chunks => (Cbor.decodeChunks chunks).map Field.ofName?
  | _ => .error .mismatch

/-- Decodes entries into an image. The first entry of a field counts, and later ones are skipped;
`found` holds the fields so far. -/
def setEntries (img : Image) (found : List Field) : List Cbor.Item → Except Cbor.Flaw Image
  | key :: value :: entries => do
    match ← keyField? key with
    | none => setEntries img found entries
    | some f =>
      if f ∈ found then setEntries img found entries
      else setEntries (← img.setField f value) (f :: found) entries
  | _ => .ok img

/-- The image of an item, before its header is looked at. -/
def ofItem (item : Cbor.Item) : Except Cbor.Flaw Image := do
  match ← item.untagged with
  | .map entries => setEntries zero [] entries
  | item => if item.isNull then .ok zero else .error item.mismatch

/-- The image that bytes hold. -/
def decode (data : List UInt8) : Except Error Image :=
  match (Cbor.decode data).bind ofItem with
  | .error flaw => .error (.encoding flaw)
  | .ok img => img.validate.map fun _ => img

/-! ## Files -/

/-- Why a file cannot be read as an image. -/
inductive ReadError where
  | file (path : Text) (error : FileError)
  | image (path : Text) (error : Error)
deriving DecidableEq, Repr

/-- The report of a file that cannot be read as an image. -/
def ReadError.failure : ReadError → Failure
  | .file path error => ⟨"cannot read " ++ path.display ++ ": " ++ FileTree.readMessage path error, []⟩
  | .image path error => error.failure.within path.display

/-- The image in a file. -/
def readFrom (files : FileTree) (path : Text) : Except ReadError Image :=
  match files.read path with
  | .error e => .error (.file path e)
  | .ok data =>
    match decode data with
    | .error e => .error (.image path e)
    | .ok img => .ok img

/-- The file tree with an image written to a file. -/
def writeTo (files : FileTree) (path : Text) (img : Image) : Except FileError FileTree :=
  files.write path img.encode

end Image

end StripSequencer
