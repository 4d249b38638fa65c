import AliasStubs.Bytes

/-!
# Runtime headers

The runtime header of an image says where its metadata lie. It has a fixed size of 72 bytes, of
which only the first 20 matter here.

## Main definitions

* `RuntimeHeader` : what the header says.
* `RuntimeHeader.read` : reads the header at the start of the data.
-/

namespace AliasStubs

/-- What a runtime header says. -/
structure RuntimeHeader where
  /-- The major version of the runtime that is needed. -/
  majorVersion : Nat
  /-- The minor version of the runtime that is needed. -/
  minorVersion : Nat
  /-- The relative address of the metadata. -/
  metadataAddress : Nat
  /-- The size of the metadata. -/
  metadataSize : Nat
  /-- The flags of the image. -/
  flags : Nat
  deriving DecidableEq, Repr

namespace RuntimeHeader

/-- The size of every runtime header. -/
def size : Nat := 72

/-- The most bytes of metadata that are read. -/
def maxMetadataSize : Nat := 0x10000000

/-- Reads the runtime header at the start of the data. -/
def read (data : ByteArray) : Except Failure RuntimeHeader := do
  if data.size < size then
    throw .outOfBounds
  let found ← Bytes.uintAt data 4 0
  if found ≠ size then
    throw (.malformed (.runtimeHeaderSize found))
  let majorVersion ← Bytes.uintAt data 2 4
  let minorVersion ← Bytes.uintAt data 2 6
  let metadataAddress ← Bytes.uintAt data 4 8
  if metadataAddress = 0 then
    throw (.malformed .noMetadataAddress)
  let metadataSize ← Bytes.uintAt data 4 12
  if metadataSize = 0 then
    throw (.malformed .noMetadataSize)
  if maxMetadataSize < metadataSize then
    throw (.malformed (.metadataTooLarge metadataSize))
  let flags ← Bytes.uintAt data 4 16
  return { majorVersion, minorVersion, metadataAddress, metadataSize, flags }

end RuntimeHeader

end AliasStubs
