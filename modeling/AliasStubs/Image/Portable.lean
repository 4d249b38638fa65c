import AliasStubs.Image.Headers

/-!
# Portable executables

A reader of headers for the images that runtimes load. It wants all headers to lie in the image. If
they name a runtime header, this header and the metadata behind it have to be found in the file the
way a loader maps them. The mapping is stricter than the one by which the metadata are found
afterwards: it rounds the sizes of sections to the alignment of the file and to pages.

## Main definitions

* `alignUp` : a size rounded up to an alignment.
* `Section.mappedSize` : how many bytes of a section a loader maps.
* `mappedOffset?` : where a loader finds a relative address in the file.
* `HeaderReader.portable` : the reader.
-/

namespace AliasStubs

/-- The least multiple of `alignment` that is not below `n`. -/
def alignUp (n alignment : Nat) : Nat :=
  (n + alignment - 1) / alignment * alignment

/-- The size of a page. -/
def pageSize : Nat := 0x1000

/-- The unit in which loaders count where a section starts in the file. -/
def sectorSize : Nat := 0x200

/-- How many bytes of a section a loader maps. -/
def Section.mappedSize (s : Section) (fileAlignment : Nat) : Nat :=
  let sector := s.rawPointer / sectorSize * sectorSize
  let read := min (alignUp (s.rawPointer + s.rawSize) fileAlignment - sector)
    (alignUp s.rawSize pageSize)
  if s.virtualSize = 0 then read else min read (alignUp s.virtualSize pageSize)

/-- Whether a loader finds the relative address in the section. -/
def Section.maps (s : Section) (fileAlignment address : Nat) : Bool :=
  s.rawSize ≠ 0 ∧ s.virtualAddress ≤ address ∧
    address < s.virtualAddress + s.mappedSize fileAlignment

/-- Where a loader finds a relative address in the file. -/
def mappedOffset? (sections : List Section) (fileAlignment address : Nat) : Option Nat :=
  (sections.find? (·.maps fileAlignment address)).map fun s =>
    s.rawPointer + (address - s.virtualAddress)

namespace HeaderReader

open ImageHeaders

variable (data : ByteArray)

/-- The magic number of optional headers with addresses of four bytes. -/
def narrowMagic : Nat := 0x10B

/-- The most data directories that an image may have. -/
def maxDirectories : Nat := 16

/-- Whether the signatures stand where they belong, with a file header behind the second one. -/
def hasSignatures : Bool :=
  Bytes.littleEndian data 2 0 = 0x5A4D ∧ 0x40 ≤ signatureOffset data ∧
    signatureOffset data + 24 ≤ data.size ∧
    Bytes.littleEndian data 4 (signatureOffset data) = 0x4550

/-- Whether the optional header is missing or lies in the image with all its directories. -/
def holdsOptional : Bool :=
  optionalSize data = 0 ∨
    (optionalMagic data = narrowMagic ∨ optionalMagic data = wideMagic) ∧
      directoryCount data ≤ maxDirectories ∧
      directoriesOffset data + 8 * directoryCount data ≤ data.size

/-- Whether the section table is empty or lies in the image. -/
def holdsTable : Bool :=
  sectionCount data = 0 ∨ tableOffset data + 40 * sectionCount data ≤ data.size

/-- Whether metadata of `size` bytes can start at `offset`: they lie in the file, and so does their
version text, which is UTF-8, with four more bytes behind it. -/
def holdsMetadata (offset size : Nat) : Bool :=
  let length := Bytes.littleEndian data 4 (offset + 12)
  offset + size ≤ data.size ∧ offset + 16 + length + 4 ≤ data.size ∧
    (String.fromUTF8? (data.extract (offset + 16) (offset + 16 + length))).isSome

/-- Whether the runtime header in the directory `d` and the metadata behind it can be reached. -/
def reaches (d : Directory) : Bool :=
  let fileAlignment := Bytes.littleEndian data 4 (optionalOffset data + 36)
  let offset? := mappedOffset? (storedSections data) fileAlignment
  (do
    guard (fileAlignment ≠ 0 ∧ fileAlignment &&& (fileAlignment - 1) = 0)
    let header ← offset? d.address
    guard (header + 72 ≤ data.size)
    let offset ← offset? (Bytes.littleEndian data 4 (header + 8))
    guard (holdsMetadata data offset (Bytes.littleEndian data 4 (header + 12))) :
      Option Unit).isSome

/-- Whether the runtime header can be reached, if the image names one. -/
def reachesRuntime : Bool :=
  match storedOptional? data with
  | some ⟨some d⟩ => reaches data d
  | _ => true

/-- **Reads the headers of an image** that a runtime can load. -/
def portable : HeaderReader := fun data =>
  if hasSignatures data && holdsOptional data && holdsTable data && reachesRuntime data then
    some { optional? := storedOptional? data, sections := storedSections data }
  else
    none

theorem portable_eq_some_iff {data : ByteArray} {h : ImageHeaders} : portable data = some h ↔
    (hasSignatures data && holdsOptional data && holdsTable data && reachesRuntime data) = true ∧
      h = ⟨storedOptional? data, storedSections data⟩ := by
  rw [portable, Option.ite_none_right_eq_some, Option.some.injEq, eq_comm (b := h)]

theorem readsSections_portable : portable.ReadsSections := fun _ _ h =>
  congrArg ImageHeaders.sections (portable_eq_some_iff.mp h).2

theorem readsOptional_portable : portable.ReadsOptional := fun _ _ h =>
  congrArg ImageHeaders.optional? (portable_eq_some_iff.mp h).2

end HeaderReader

end AliasStubs
