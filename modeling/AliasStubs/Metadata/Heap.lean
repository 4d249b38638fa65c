import AliasStubs.Bytes
import AliasStubs.Metadata.Compressed

/-!
# Heaps

The columns of the tables point into heaps. The identifier heap holds UTF-8 texts, each ended by a
zero byte, and an index may also point into the middle of a text. The blob heap holds runs of
bytes, each behind its length. Both start with a zero byte.

## Main definitions

* `StringHeap` and `BlobHeap` : the two heaps, with `ofBytes` to accept their bytes.
* `StringHeap.get` : the text at an index.
* `BlobHeap.get` : the bytes at an index.
-/

namespace AliasStubs

/-- The identifier heap. -/
structure StringHeap where
  /-- The texts of the heap, each ended by a zero byte. -/
  data : ByteArray

namespace StringHeap

/-- Accepts the bytes of an identifier heap, which start with a zero byte. -/
def ofBytes (data : ByteArray) : Except Failure StringHeap :=
  if 0 < data.size ∧ Bytes.byteAt data 0 = 0 then
    .ok ⟨data⟩
  else
    .error (.malformed .badStringHeap)

/-- The text that starts at `index` and ends before the next zero byte. -/
def get (h : StringHeap) (index : Nat) : Except Failure String :=
  if h.data.size ≤ index then
    .error .outOfBounds
  else
    match (Bytes.untilZero? h.data index).bind String.fromUTF8? with
    | some s => .ok s
    | none => .error (.malformed (.badString index))

end StringHeap

/-- The blob heap. -/
structure BlobHeap where
  /-- The blobs of the heap, each behind its length. -/
  data : ByteArray

namespace BlobHeap

/-- Accepts the bytes of a blob heap, which start with a zero byte. -/
def ofBytes (data : ByteArray) : Except Failure BlobHeap :=
  if 0 < data.size ∧ Bytes.byteAt data 0 = 0 then
    .ok ⟨data⟩
  else
    .error (.malformed .badBlobHeap)

/-- Where the blob at `index` starts and how long it is. The length is a compressed integer, which
takes at most four bytes. -/
def extent (h : BlobHeap) (index : Nat) : Except Failure (Nat × Nat) :=
  let field := (h.data.extract index (min (index + 4) h.data.size)).data.toList
  match Compressed.uint field with
  | .ok length rest => .ok (index + (field.length - rest.length), length)
  | .error e _ => .error e

/-- The blob at `index`, without its length. -/
def get (h : BlobHeap) (index : Nat) : Except Failure ByteArray :=
  if h.data.size ≤ index then
    .error .outOfBounds
  else do
    let (start, length) ← h.extent index
    Bytes.slice h.data start length

end BlobHeap

end AliasStubs
