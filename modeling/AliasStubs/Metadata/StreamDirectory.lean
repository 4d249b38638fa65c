import AliasStubs.Bytes
import AliasStubs.Text.Lossy

/-!
# Stream directories

Metadata start with a magic number, a version text and a directory of streams. The directory lists
where each stream lies, by offset from the start of the metadata and size, under one of six names.
A name is ended by a zero byte and padded to a multiple of four bytes.

## Main definitions

* `StreamName` : the names a stream can have.
* `StreamHeader` : an entry of the directory.
* `StreamDirectory` : the start of the metadata; `StreamDirectory.read` reads it.
* `StreamDirectory.stream?` : the bytes of the first stream of a given name.
-/

namespace AliasStubs

/-- The names a stream can have. -/
inductive StreamName
  /-- The identifier heap. -/
  | strings
  /-- The heap of string literals. -/
  | userStrings
  /-- The blob heap. -/
  | blob
  /-- The heap of globally unique identifiers. -/
  | guid
  /-- The table stream. -/
  | tables
  /-- The table stream of metadata that are still being edited. -/
  | editableTables
  deriving DecidableEq, Repr

namespace StreamName

/-- Every name a stream can have. -/
def all : List StreamName :=
  [strings, userStrings, blob, guid, tables, editableTables]

/-- The text of a name, as the directory stores it. -/
def text : StreamName → String
  | strings => "#Strings"
  | userStrings => "#US"
  | blob => "#Blob"
  | guid => "#GUID"
  | tables => "#~"
  | editableTables => "#-"

/-- The name of a given text. -/
def ofText? (s : String) : Option StreamName :=
  all.find? (·.text == s)

@[simp] theorem ofText?_text (n : StreamName) : ofText? n.text = some n := by
  cases n <;> decide

end StreamName

/-- An entry of the stream directory. -/
structure StreamHeader where
  /-- Where the stream starts, counted from the start of the metadata. -/
  offset : Nat
  /-- The stream's size in bytes. -/
  size : Nat
  /-- The stream's name. -/
  name : StreamName
  deriving DecidableEq, Repr

namespace StreamHeader

/-- The longest run of bytes in which a name has to end. -/
def nameLimit : Nat := 32

/-- The number of bytes an entry occupies, its padded name included. -/
def length (h : StreamHeader) : Nat :=
  8 + (h.name.text.utf8ByteSize + 1 + 3) / 4 * 4

/-- Reads the entry at the start of `data`. -/
def read (data : ByteArray) : Except Failure StreamHeader := do
  if data.size < 9 then
    throw .outOfBounds
  let field := data.extract 8 (min (8 + nameLimit) data.size)
  let some bytes := Bytes.untilZero? field 0 | throw (.malformed .unterminatedStreamName)
  let text := Lossy.decode bytes
  let some name := StreamName.ofText? text | throw (.malformed (.unknownStreamName text))
  let offset ← Bytes.uintAt data 4 0
  let size ← Bytes.uintAt data 4 4
  return { offset, size, name }

end StreamHeader

/-- The start of the metadata. -/
structure StreamDirectory where
  /-- The major version of the metadata's format. -/
  majorVersion : Nat
  /-- The minor version of the metadata's format. -/
  minorVersion : Nat
  /-- The version of the runtime that the metadata were written for. -/
  version : String
  /-- The streams, in the order of the directory. -/
  headers : List StreamHeader

namespace StreamDirectory

/-- The number that metadata start with. -/
def magic : Nat := 0x424A5342

/-- The most streams that a directory may list. -/
def maxStreams : Nat := 8

/-- Checks that the stream `h` lies inside the `size` bytes of the metadata. -/
def checkExtent (size : Nat) (h : StreamHeader) : Except Failure Unit :=
  if UInt32.size ≤ h.offset + h.size then
    .error (.malformed (.streamExtent h.offset h.size))
  else if size < h.offset + h.size then
    .error .outOfBounds
  else
    .ok ()

/-- Reads `count` entries of the directory, the first of which starts at `offset`. -/
def readHeaders (data : ByteArray) :
    (count offset : Nat) → Except Failure (List StreamHeader)
  | 0, _ => .ok []
  | count + 1, offset => do
    if data.size ≤ offset then
      throw .outOfBounds
    let h ← StreamHeader.read (data.extract offset data.size)
    checkExtent data.size h
    let hs ← readHeaders data count (offset + h.length)
    return h :: hs

/-- The text of a version field: its bytes up to the first zero byte, if there is one. -/
def versionText (field : ByteArray) : String :=
  Lossy.decode ((Bytes.untilZero? field 0).getD field)

/-- Reads the start of the metadata. -/
def read (data : ByteArray) : Except Failure StreamDirectory := do
  if data.size < 20 then
    throw .outOfBounds
  let found ← Bytes.uintAt data 4 0
  if found ≠ magic then
    throw (.malformed (.badMagic found))
  let versionSize ← Bytes.uintAt data 4 12
  let versionEnd := 16 + versionSize
  if data.size < versionEnd + 4 then
    throw .outOfBounds
  let version := versionText (data.extract 16 versionEnd)
  let count ← Bytes.uintAt data 2 (versionEnd + 2)
  if count = 0 ∨ maxStreams < count then
    throw (.malformed (.streamCount count))
  let headers ← readHeaders data count (versionEnd + 4)
  let majorVersion ← Bytes.uintAt data 2 4
  let minorVersion ← Bytes.uintAt data 2 6
  return { majorVersion, minorVersion, version, headers }

/-- The bytes of the first stream named `name`. -/
def stream? (d : StreamDirectory) (data : ByteArray) (name : StreamName) : Option ByteArray := do
  let h ← d.headers.find? (·.name == name)
  (Bytes.slice data h.offset h.size).toOption

end StreamDirectory

end AliasStubs
