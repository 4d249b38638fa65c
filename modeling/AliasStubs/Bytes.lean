import AliasStubs.Failure

/-!
# Reading numbers and slices from bytes

Numbers are stored with their least significant byte first. A `Reader` works on a byte array and
carries the offset of the next byte to read; a read that would go past the end fails and leaves
the offset where it was. Every bound is checked before an offset is used.

## Main definitions

* `Bytes.littleEndian` : the number held by a run of bytes.
* `Reader` : a computation that moves an offset, `Reader.atOffset` its result from one offset.
* `Bytes.uint` : reads one number, `Bytes.uintAt` the same from a given offset.
* `Bytes.slice` : a run of bytes, all of which must exist.
-/

namespace AliasStubs

/-- A computation over bytes that carries the offset of the next byte to read. The offset is kept
when the computation fails. -/
abbrev Reader := EStateM Failure Nat

/-- The result of a reader that starts at `offset`. -/
def Reader.atOffset {α : Type} (r : Reader α) (offset : Nat) : Except Failure α :=
  match r offset with
  | .ok a _ => .ok a
  | .error e _ => .error e

namespace Bytes

/-- The byte at offset `i`, zero outside the data. -/
def byteAt (data : ByteArray) (i : Nat) : UInt8 :=
  if h : i < data.size then data[i] else 0

/-- The number held by the `width` bytes that start at `offset`, the least significant first. -/
def littleEndian (data : ByteArray) : (width offset : Nat) → Nat
  | 0, _ => 0
  | width + 1, offset => (byteAt data offset).toNat + 256 * littleEndian data width (offset + 1)

/-- Reads a number of `width` bytes. -/
def uint (data : ByteArray) (width : Nat) : Reader Nat := fun offset =>
  if offset + width ≤ data.size then
    .ok (littleEndian data width offset) (offset + width)
  else
    .error .outOfBounds offset

/-- The number of `width` bytes at `offset`. -/
def uintAt (data : ByteArray) (width offset : Nat) : Except Failure Nat :=
  (uint data width).atOffset offset

/-- The `length` bytes that start at `offset`. -/
def slice (data : ByteArray) (offset length : Nat) : Except Failure ByteArray :=
  if offset + length ≤ data.size then
    .ok (data.extract offset (offset + length))
  else
    .error .outOfBounds

/-- The bytes of `data` from `start` up to the first one that is zero, or `none` if no zero byte
follows. -/
def untilZero? (data : ByteArray) (start : Nat) : Option ByteArray :=
  go start
where
  /-- Looks for the zero byte from offset `i` on. -/
  go (i : Nat) : Option ByteArray :=
    if h : i < data.size then
      if data[i] = 0 then some (data.extract start i) else go (i + 1)
    else
      none
  termination_by data.size - i

/-- A slice has the length asked for. -/
theorem size_of_slice {data s : ByteArray} {offset length : Nat}
    (h : slice data offset length = .ok s) : s.size = length := by
  unfold slice at h
  split at h
  · cases h
    simp only [ByteArray.size_extract]
    omega
  · cases h

end Bytes

end AliasStubs
