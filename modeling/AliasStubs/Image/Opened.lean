import AliasStubs.Image.Headers
import AliasStubs.Image.RuntimeHeader

/-!
# Opened images

An image is opened by the headers that a reader returns for it. The section table tells which offset
in the file a relative address stands for, and the metadata are found through the runtime header.

## Main definitions

* `Image` : an opened image; `Image.read` opens one.
* `Image.runtimeHeader` : where the runtime header lies.
* `Image.offsetOf` : the offset in the file of a relative address.
* `Image.metadata` : the bytes of the metadata.
-/

namespace AliasStubs

namespace Section

/-- The number of addresses that a section covers. -/
def extent (s : Section) : Nat :=
  max s.virtualSize s.rawSize

/-- Whether the relative address lies in the section. -/
def contains (s : Section) (address : Nat) : Bool :=
  s.virtualAddress ≤ address ∧ address < s.virtualAddress + s.extent

/-- The offset in the file of a relative address that lies in the section. -/
def offsetOf (s : Section) (address : Nat) : Nat :=
  address - s.virtualAddress + s.rawPointer

end Section

/-- The offset in the file of a relative address: the first section that holds it decides, unless
a section before it reaches past the largest address. -/
def fileOffset : (sections : List Section) → (address : Nat) → Except Failure Nat
  | [], address => .error (.malformed (.unmappedAddress address))
  | s :: rest, address =>
    if UInt32.size ≤ s.virtualAddress + s.extent then
      .error (.malformed (.sectionExtent s.virtualAddress s.extent))
    else if s.contains address then
      .ok (s.offsetOf address)
    else
      fileOffset rest address

/-- An opened image. -/
structure Image where
  /-- The bytes of the file. -/
  data : ByteArray
  /-- The section table. -/
  sections : List Section
  /-- The directory of the runtime header. -/
  runtime : Directory

namespace Image

/-- Opens an image by its headers. -/
def read (headers? : HeaderReader) (data : ByteArray) : Except Failure Image :=
  if data.size = 0 then
    .error .empty
  else
    match headers? data with
    | none => .error .notAnImage
    | some { optional? := none, .. } => .error (.malformed .noOptionalHeader)
    | some { optional? := some ⟨none⟩, .. } => .error (.malformed .noRuntimeHeader)
    | some { optional? := some ⟨some runtime⟩, sections } => .ok { data, sections, runtime }

/-- An image is opened exactly if the reader returns its headers, with a directory of the runtime
header among them. -/
theorem read_eq_ok_iff {headers? : HeaderReader} {data : ByteArray} {i : Image} :
    read headers? data = .ok i ↔ data.size ≠ 0 ∧
      headers? data = some ⟨some ⟨some i.runtime⟩, i.sections⟩ ∧ i.data = data := by
  unfold read
  split
  · rename_i hempty
    simp [hempty]
  · rename_i hnonempty
    split
    · rename_i hheaders
      simp [hheaders]
    · rename_i hheaders
      simp [hheaders]
    · rename_i hheaders
      simp [hheaders]
    · rename_i runtime sections hheaders
      rw [hheaders]
      constructor
      · rintro ⟨⟩
        exact ⟨hnonempty, rfl, rfl⟩
      · rintro ⟨-, ⟨⟩, rfl⟩
        rfl

/-- Where the runtime header lies: it needs an address and a size. -/
def runtimeHeader (i : Image) : Except Failure Directory :=
  if i.runtime.address = 0 ∨ i.runtime.size = 0 then
    .error (.malformed .emptyRuntimeHeader)
  else
    .ok i.runtime

/-- The offset in the file of a relative address. -/
def offsetOf (i : Image) (address : Nat) : Except Failure Nat :=
  if UInt32.size ≤ address then
    .error (.malformed (.addressTooLarge address))
  else
    fileOffset i.sections address

/-- The `size` bytes at a relative address. -/
def bytesAt (i : Image) (address size : Nat) : Except Failure ByteArray := do
  Bytes.slice i.data (← i.offsetOf address) size

/-- The bytes of the metadata. -/
def metadata (i : Image) : Except Failure ByteArray := do
  let d ← i.runtimeHeader
  let header ← RuntimeHeader.read (← i.bytesAt d.address d.size)
  i.bytesAt header.metadataAddress header.metadataSize

end Image

end AliasStubs
