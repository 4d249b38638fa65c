import AliasStubs.Metadata.Heap
import AliasStubs.Metadata.StreamDirectory
import AliasStubs.Metadata.TableStream

/-!
# Opened metadata

Metadata are opened by finding their table stream and their heaps. The identifier heap is
required; the blob heap may be missing as long as no blob is asked for.

## Main definitions

* `Metadata` : the tables and heaps of opened metadata.
* `Metadata.read` : opens metadata.
* `Metadata.string` and `Metadata.blob` : look-ups in the heaps.
-/

namespace AliasStubs

/-- The tables and heaps of opened metadata. -/
structure Metadata where
  /-- The table stream. -/
  tables : TableStream
  /-- The identifier heap. -/
  strings : StringHeap
  /-- The blob heap, if there is one. -/
  blobs : Option BlobHeap

namespace Metadata

/-- The table stream. A stream of tables that are still being edited is not supported. -/
def readTables (d : StreamDirectory) (data : ByteArray) : Except Failure TableStream :=
  match d.stream? data .tables with
  | some bytes => TableStream.read bytes
  | none =>
    match d.stream? data .editableTables with
    | some _ => .error .notSupported
    | none => .error (.malformed .missingTableStream)

/-- The identifier heap. -/
def readStrings (d : StreamDirectory) (data : ByteArray) : Except Failure StringHeap :=
  match d.stream? data .strings with
  | some bytes => StringHeap.ofBytes bytes
  | none => .error (.malformed .missingStringHeap)

/-- The blob heap, if there is one. -/
def readBlobs (d : StreamDirectory) (data : ByteArray) : Except Failure (Option BlobHeap) :=
  match d.stream? data .blob with
  | some bytes => (BlobHeap.ofBytes bytes).map some
  | none => .ok none

/-- Opens metadata. -/
def read (data : ByteArray) : Except Failure Metadata := do
  let d ← StreamDirectory.read data
  let tables ← readTables d data
  let strings ← readStrings d data
  let blobs ← readBlobs d data
  return { tables, strings, blobs }

/-- The identifier at `index`. -/
def string (m : Metadata) (index : Nat) : Except Failure String :=
  m.strings.get index

/-- The blob at `index`. -/
def blob (m : Metadata) (index : Nat) : Except Failure ByteArray :=
  match m.blobs with
  | some heap => heap.get index
  | none => .error (.malformed (.missingBlobHeap index))

end Metadata

end AliasStubs
