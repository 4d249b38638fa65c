import AliasStubs.Bytes

/-!
# The headers of an image

An image starts with a small header that points at a signature. Behind the signature stand the file
header, an optional header with data directories, and the section table. Of the directories only
the one that names the runtime header matters.

Which images are accepted is not decided here. Whatever opens an image is given a `HeaderReader`,
which refuses the image or returns its headers. The headers that an image stores stand at known
offsets in it, so what can be asked of a reader is that it returns these.

## Main definitions

* `Directory` : a data directory.
* `Section` : an entry of the section table.
* `OptionalHeader` and `ImageHeaders` : the headers.
* `HeaderReader` : refuses an image or returns its headers.
* `ImageHeaders.storedSections` and `ImageHeaders.storedOptional?` : the headers as they are stored.
* `HeaderReader.ReadsSections` and `HeaderReader.ReadsOptional` : a reader returns what is stored.
-/

namespace AliasStubs

/-- A data directory: something of `size` bytes at a relative address. -/
structure Directory where
  /-- The relative address. -/
  address : Nat
  /-- The size in bytes. -/
  size : Nat
  deriving DecidableEq, Repr

/-- An entry of the section table. -/
structure Section where
  /-- The size of the section in memory. -/
  virtualSize : Nat
  /-- The relative address at which the section starts in memory. -/
  virtualAddress : Nat
  /-- The size of the section in the file. -/
  rawSize : Nat
  /-- Where the section starts in the file. -/
  rawPointer : Nat
  deriving DecidableEq, Repr

/-- The part of the optional header that matters here. -/
structure OptionalHeader where
  /-- The directory of the runtime header, if there is one. -/
  runtime? : Option Directory
  deriving DecidableEq, Repr

/-- The headers of an image. -/
structure ImageHeaders where
  /-- The optional header, if there is one. -/
  optional? : Option OptionalHeader
  /-- The section table. -/
  sections : List Section
  deriving DecidableEq, Repr

/-- A **reader of headers** refuses an image or returns its headers. -/
abbrev HeaderReader := ByteArray → Option ImageHeaders

/-! ### Headers as they are stored -/

/-- The directory stored at `offset`. One of zeros is absent. -/
def Directory.storedAt? (data : ByteArray) (offset : Nat) : Option Directory :=
  let address := Bytes.littleEndian data 4 offset
  let size := Bytes.littleEndian data 4 (offset + 4)
  if address = 0 ∧ size = 0 then none else some { address, size }

/-- The entry of the section table that is stored at `offset`. -/
def Section.storedAt (data : ByteArray) (offset : Nat) : Section where
  virtualSize := Bytes.littleEndian data 4 (offset + 8)
  virtualAddress := Bytes.littleEndian data 4 (offset + 12)
  rawSize := Bytes.littleEndian data 4 (offset + 16)
  rawPointer := Bytes.littleEndian data 4 (offset + 20)

namespace ImageHeaders

variable (data : ByteArray)

/-- The offset of the signature. -/
def signatureOffset : Nat := Bytes.littleEndian data 4 0x3C

/-- The number of sections. -/
def sectionCount : Nat := Bytes.littleEndian data 2 (signatureOffset data + 6)

/-- The size of the optional header. -/
def optionalSize : Nat := Bytes.littleEndian data 2 (signatureOffset data + 20)

/-- The offset of the optional header. -/
def optionalOffset : Nat := signatureOffset data + 24

/-- The magic number of the optional header. -/
def optionalMagic : Nat := Bytes.littleEndian data 2 (optionalOffset data)

/-- The magic number of optional headers with addresses of eight bytes. -/
def wideMagic : Nat := 0x20B

/-- The offset of the data directories, which stand behind the addresses in the optional header. -/
def directoriesOffset : Nat :=
  optionalOffset data + if optionalMagic data = wideMagic then 112 else 96

/-- The number of data directories. -/
def directoryCount : Nat := Bytes.littleEndian data 4 (directoriesOffset data - 4)

/-- The offset of the section table. -/
def tableOffset : Nat := optionalOffset data + optionalSize data

/-- Which of the directories names the runtime header. -/
def runtimeIndex : Nat := 14

/-- The optional header that an image stores. -/
def storedOptional? : Option OptionalHeader :=
  if optionalSize data = 0 then
    none
  else if runtimeIndex < directoryCount data then
    some ⟨Directory.storedAt? data (directoriesOffset data + 8 * runtimeIndex)⟩
  else
    some ⟨none⟩

/-- The section table that an image stores. -/
def storedSections : List Section :=
  (List.range (sectionCount data)).map fun i => Section.storedAt data (tableOffset data + 40 * i)

end ImageHeaders

/-! ### What is asked of a reader -/

namespace HeaderReader

open ImageHeaders

/-- The reader returns section tables **as they are stored**. -/
def ReadsSections (headers? : HeaderReader) : Prop :=
  ∀ data h, headers? data = some h → h.sections = storedSections data

/-- The reader returns optional headers **as they are stored**. -/
def ReadsOptional (headers? : HeaderReader) : Prop :=
  ∀ data h, headers? data = some h → h.optional? = storedOptional? data

/-- The reader **accepts** the image. -/
def Accepts (headers? : HeaderReader) (data : ByteArray) : Prop :=
  ∃ h, headers? data = some h

end HeaderReader

end AliasStubs
