import AliasStubs.Proofs.Machine.Word

/-!
# Numbers in machine memory

A machine holds fewer than `2 ^ 63` bytes in a row, so no offset into them comes near the end of a
word. A number is read by taking the bytes of its field, which have to be there, and the offset
behind the field is checked before they are taken.

## Main definitions

* `Machine.Addressable` : what a machine can hold in a row.
* `Machine.uint` : reads a number; `Machine.uintFrom` reads it from the start of a tail of the data.

## Main results

* `Machine.uint_eq`, `Machine.uintFrom_eq` : **reading a number never faults**.
-/

namespace AliasStubs.Machine

open Bytes

variable {data : ByteArray}

/-- A machine can hold the data in a row. -/
def Addressable (data : ByteArray) : Prop :=
  data.size < 1 <<< 63

theorem Addressable.lt_bound (h : Addressable data) : data.size < 1 <<< 63 :=
  h

/-- A part of what a machine can hold can be held. -/
theorem Addressable.extract (h : Addressable data) (start stop : Nat) :
    Addressable (data.extract start stop) := by
  unfold Addressable at h ⊢
  rw [ByteArray.size_extract]
  omega

/-- Reads a number of `width` bytes. -/
def uint (data : ByteArray) (width : Nat) : Stateful Nat Nat := do
  let offset ← get
  match Word.word64.add? offset width with
  | none => throw (.failure .outOfBounds)
  | some stop =>
    if data.size < stop then
      throw (.failure .outOfBounds)
    let field ← slice data offset stop
    set stop
    return littleEndian field width 0

/-- Reads a number of `width` bytes from the start of the tail at `start`. -/
def uintFrom (data : ByteArray) (width start : Nat) : Checked Nat := do
  let tail ← sliceFrom data start
  (uint tail width).startingAt 0

/-! ### Parts of the data -/

/-- A number at the start of a tail is a number of the whole. -/
theorem uintAt_extract {start : Nat} (h : start ≤ data.size) (width : Nat) :
    uintAt (data.extract start data.size) width 0 = uintAt data width start := by
  unfold uintAt Reader.atOffset Bytes.uint
  rw [ByteArray.size_extract, Nat.min_self]
  by_cases hfits : start + width ≤ data.size
  · rw [if_pos (by omega), if_pos hfits]
    rw [littleEndian_extract (Nat.le_refl _) (by omega), Nat.add_zero]
  · rw [if_neg (by omega), if_neg hfits]

/-- A number of at most four bytes has at most 32 bits. -/
theorem lt_of_uint {width offset next n : Nat} (hwidth : width ≤ 4)
    (h : Bytes.uint data width offset = .ok n next) : n < UInt32.size := by
  unfold Bytes.uint at h
  split at h
  · cases h
    exact Nat.lt_of_lt_of_le (littleEndian_lt data width offset)
      (Nat.pow_le_pow_right (by decide) hwidth)
  · cases h

theorem lt_of_uintAt {width offset n : Nat} (hwidth : width ≤ 4)
    (h : uintAt data width offset = .ok n) : n < UInt32.size := by
  unfold uintAt Reader.atOffset at h
  split at h
  · rename_i hread
    cases h
    exact lt_of_uint hwidth hread
  · cases h

/-! ### Reading numbers -/

/-- **Reading a number never faults**, where the offset behind it fits into a word. -/
theorem uint_apply {offset width : Nat} (h : offset + width < Word.word64.bound) :
    uint data width offset = liftReader (Bytes.uint data width) offset := by
  simp only [uint, Stateful.get_bind_apply, Word.add?_of_lt h, liftReader, Bytes.uint]
  by_cases hfits : offset + width ≤ data.size
  · have hslice := slice_of_le (Nat.le_add_right offset width) hfits
    have hfield : littleEndian (data.extract offset (offset + width)) width 0 =
        littleEndian data width offset := littleEndian_extract hfits (by omega)
    simp only [if_pos hfits, if_neg (Nat.not_lt.mpr hfits), hslice, Stateful.liftM_ok, pure_bind,
      Stateful.set_bind_apply, hfield]
    rfl
  · simp only [if_neg hfits, if_pos (Nat.not_le.mp hfits)]
    rfl

/-- **Reading a number from what a machine can hold never faults**, wherever it is read. -/
theorem uint_eq (h : Addressable data) (width : Nat) :
    uint data width = liftReader (Bytes.uint data width) := by
  have hbound := h.lt_bound
  funext offset
  by_cases hword : offset + width < Word.word64.bound
  · exact uint_apply hword
  · -- The offset is refused before the data are looked at, which end before it.
    have hfits : ¬ offset + width ≤ data.size := by
      rw [Word.bound_word64] at hword
      omega
    simp only [uint, Stateful.get_bind_apply, Word.add?_of_le (Nat.not_lt.mp hword), liftReader,
      Bytes.uint, if_neg hfits]
    rfl

/-- A reader without faults has none from an offset on. -/
theorem startingAt_liftReader {α : Type} (r : Reader α) (offset : Nat) :
    (liftReader r).startingAt offset = lift (r.atOffset offset) := by
  unfold Stateful.startingAt liftReader Reader.atOffset
  cases r offset <;> rfl

/-- A number is read at an offset. -/
theorem uint_startingAt {offset width : Nat} (h : offset + width < Word.word64.bound) :
    (uint data width).startingAt offset = lift (uintAt data width offset) := by
  rw [uintAt, ← startingAt_liftReader, Stateful.startingAt, Stateful.startingAt, uint_apply h]

/-- A number is read from a tail that is there. -/
theorem uintFrom_eq {start width : Nat} (hstart : start ≤ data.size)
    (hwidth : width < Word.word64.bound) :
    uintFrom data width start = lift (uintAt data width start) := by
  rw [uintFrom, sliceFrom_of_le hstart, ← uintAt_extract hstart]
  exact uint_startingAt (by rwa [Nat.zero_add])

end AliasStubs.Machine
