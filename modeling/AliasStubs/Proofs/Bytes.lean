import AliasStubs.Bytes
import Mathlib.Algebra.Group.Nat.Defs
import Mathlib.Data.List.TakeWhile

/-!
# What readers find in bytes

Readers of bytes are written in sequence, and a sequence is taken apart where its parts meet. What a
reader finds depends on the bytes that stand at its offset and on nothing before or behind them:
`Bytes.HoldsAt` says that a run of bytes stands at an offset, and every reader gets one lemma that
starts from it.

## Main definitions

* `Bytes.ofUint` : the bytes of a number, the least significant first.
* `Bytes.HoldsAt` : some bytes stand at some offset.
* `Bytes.heapOf` : some pieces one behind the other, `Bytes.placeOf` where one of them starts.
* `Bytes.FirstZero` : where the first zero byte from an offset on stands.

## Main results

* `Reading.bind_eq_ok_iff` : a sequence succeeds exactly if its parts do.
* `Bytes.uint_of_holdsAt`, `Bytes.slice_of_holdsAt` : numbers and slices are read back.
* `Bytes.holdsAt_heapOf` : pieces that are put one behind the other stand at their places.
* `Bytes.untilZero?_eq_some_iff` : what is found before the first zero byte.
* `Bytes.untilZero?_of_holdsAt` : runs that a zero byte ends are read back.
-/

namespace AliasStubs

/-! ### Sequences of readers -/

namespace Reading

variable {σ α β : Type}

/-- A sequence succeeds exactly if its parts do, one after the other. -/
theorem bind_eq_ok_iff {d : EStateM Failure σ α} {f : α → EStateM Failure σ β} {s t : σ} {b : β} :
    (d >>= f) s = .ok b t ↔ ∃ a mid, d s = .ok a mid ∧ f a mid = .ok b t := by
  change EStateM.bind d f s = .ok b t ↔ _
  unfold EStateM.bind
  constructor
  · intro h
    split at h
    · exact ⟨_, _, ‹_›, h⟩
    · cases h
  · rintro ⟨a, mid, ha, hb⟩
    rw [ha]
    exact hb

/-- A sequence goes on where its first part has stopped. -/
theorem bind_of_eq_ok {d : EStateM Failure σ α} {s mid : σ} {a : α} (h : d s = .ok a mid)
    (f : α → EStateM Failure σ β) : (d >>= f) s = f a mid := by
  change EStateM.bind d f s = _
  rw [EStateM.bind, h]

/-- A sequence fails where its first part does. -/
theorem bind_of_eq_error {d : EStateM Failure σ α} {s stop : σ} {e : Failure}
    (h : d s = .error e stop) (f : α → EStateM Failure σ β) : (d >>= f) s = .error e stop := by
  change EStateM.bind d f s = _
  rw [EStateM.bind, h]

/-- A value that is returned moves nothing. -/
theorem pure_eq_ok_iff {a b : α} {s t : σ} :
    (pure a : EStateM Failure σ α) s = .ok b t ↔ a = b ∧ s = t := by
  change EStateM.Result.ok a s = .ok b t ↔ _
  simp only [EStateM.Result.ok.injEq]

end Reading

namespace Bytes

/-! ### The bytes of a number -/

/-- A number as `width` bytes, the least significant first. -/
def ofUint : (width n : Nat) → List UInt8
  | 0, _ => []
  | width + 1, n => UInt8.ofNat n :: ofUint width (n / 256)

@[simp] theorem length_ofUint (width n : Nat) : (ofUint width n).length = width := by
  induction width generalizing n with
  | zero => rfl
  | succ width ih => rw [ofUint, List.length_cons, ih]

/-- A number of `width` bytes holds less than `256 ^ width`. -/
theorem littleEndian_lt (data : ByteArray) (width offset : Nat) :
    littleEndian data width offset < 256 ^ width := by
  induction width generalizing offset with
  | zero => simp [littleEndian]
  | succ width ih =>
      have htail := ih (offset + 1)
      have hbyte := (byteAt data offset).toNat_lt
      rw [littleEndian, Nat.pow_succ]
      omega

/-! ### Parts of the data -/

section Parts

variable {data : ByteArray}

/-- A byte of a part is a byte of the whole. -/
theorem byteAt_extract {start stop i : Nat} (h : start + i < stop) (hstop : stop ≤ data.size) :
    byteAt (data.extract start stop) i = byteAt data (start + i) := by
  have hsize : i < (data.extract start stop).size := by
    rw [ByteArray.size_extract]
    omega
  rw [byteAt, dif_pos hsize, byteAt, dif_pos (by omega)]
  exact ByteArray.getElem_extract hsize

/-- A number in a part is a number in the whole. -/
theorem littleEndian_extract {start stop : Nat} (hstop : stop ≤ data.size) {width i : Nat}
    (h : start + i + width ≤ stop) :
    littleEndian (data.extract start stop) width i = littleEndian data width (start + i) := by
  induction width generalizing i with
  | zero => rfl
  | succ width ih =>
      rw [littleEndian, littleEndian, byteAt_extract (by omega) hstop, ih (by omega),
        Nat.add_assoc]

/-- A number that is read is the one that stands there. -/
theorem eq_of_uintAt {width offset n : Nat} (h : uintAt data width offset = .ok n) :
    n = littleEndian data width offset := by
  unfold uintAt Reader.atOffset uint at h
  split at h
  · rename_i hread
    split at hread <;> cases hread
    exact (Except.ok.inj h).symm
  · cases h

/-- A number is read exactly if all of its bytes exist. -/
theorem uintAt_eq_ok_iff {width offset n : Nat} : uintAt data width offset = .ok n ↔
    offset + width ≤ data.size ∧ littleEndian data width offset = n := by
  rw [uintAt, Reader.atOffset, uint]
  by_cases hle : offset + width ≤ data.size
  · rw [if_pos hle, and_iff_right hle]
    exact ⟨Except.ok.inj, congrArg Except.ok⟩
  · rw [if_neg hle]
    exact iff_of_false nofun fun h => hle h.1

end Parts

/-! ### Bytes at an offset -/

/-- The run `bytes` stands at `offset`. -/
def HoldsAt (data : ByteArray) (offset : Nat) (bytes : List UInt8) : Prop :=
  ∃ front back, data.data.toList = front ++ (bytes ++ back) ∧ front.length = offset

variable {data : ByteArray} {offset : Nat} {xs ys : List UInt8}

/-- A list stands at the start of its bytes. -/
theorem holdsAt_zero (xs back : List UInt8) : HoldsAt ⟨(xs ++ back).toArray⟩ 0 xs :=
  ⟨[], back, by simp, rfl⟩

/-- The front of a run stands where the run stands. -/
theorem HoldsAt.left (h : HoldsAt data offset (xs ++ ys)) : HoldsAt data offset xs := by
  obtain ⟨front, back, hdata, rfl⟩ := h
  exact ⟨front, ys ++ back, by rw [hdata, List.append_assoc], rfl⟩

/-- The back of a run stands behind its front. -/
theorem HoldsAt.right (h : HoldsAt data offset (xs ++ ys)) :
    HoldsAt data (offset + xs.length) ys := by
  obtain ⟨front, back, hdata, rfl⟩ := h
  refine ⟨front ++ xs, back, ?_, List.length_append⟩
  rw [hdata, List.append_assoc, List.append_assoc]

/-- A run does not reach past the end. -/
theorem HoldsAt.le_size (h : HoldsAt data offset xs) : offset + xs.length ≤ data.size := by
  obtain ⟨front, back, hdata, rfl⟩ := h
  have hsize : data.size = data.data.toList.length := rfl
  rw [hsize, hdata, List.length_append, List.length_append]
  omega

/-- The first byte of a run stands at its offset. -/
theorem HoldsAt.byteAt_eq {b : UInt8} (h : HoldsAt data offset (b :: xs)) :
    byteAt data offset = b := by
  have hlt : offset < data.size := by
    have := h.le_size
    rw [List.length_cons] at this
    omega
  obtain ⟨front, back, hdata, rfl⟩ := h
  have hget : data.data.toList[front.length]? = some b := by
    rw [hdata, List.getElem?_append_right (Nat.le_refl _), Nat.sub_self]
    rfl
  rw [Array.getElem?_toList, Array.getElem?_eq_getElem hlt] at hget
  rw [byteAt, dif_pos hlt]
  exact Option.some.inj hget

/-- Every byte of a run stands at its offset. -/
theorem HoldsAt.byteAt_add (h : HoldsAt data offset xs) {i : Nat} (hi : i < xs.length) :
    byteAt data (offset + i) = xs[i] := by
  rw [← List.take_append_drop i xs, List.drop_eq_getElem_cons hi] at h
  have hrest := h.right
  rw [List.length_take, Nat.min_eq_left (Nat.le_of_lt hi)] at hrest
  exact hrest.byteAt_eq

/-- The bytes of a number hold the number. -/
theorem littleEndian_of_holdsAt {width n : Nat} (h : HoldsAt data offset (ofUint width n))
    (hn : n < 256 ^ width) : littleEndian data width offset = n := by
  induction width generalizing offset n with
  | zero =>
      have hn : n < 1 := hn
      rw [littleEndian]
      omega
  | succ width ih =>
      rw [Nat.pow_succ] at hn
      have htail : HoldsAt data (offset + 1) (ofUint width (n / 256)) :=
        HoldsAt.right (show HoldsAt data offset ([UInt8.ofNat n] ++ _) from h)
      have hb : (UInt8.ofNat n).toNat = n % 256 := UInt8.toNat_ofNat'
      rw [littleEndian, h.byteAt_eq, ih htail (by omega), hb]
      omega

/-- **A number that is written is read back.** -/
theorem uint_of_holdsAt {width n : Nat} (h : HoldsAt data offset (ofUint width n))
    (hn : n < 256 ^ width) : uint data width offset = .ok n (offset + width) := by
  have hle := h.le_size
  rw [length_ofUint] at hle
  rw [uint, if_pos hle, littleEndian_of_holdsAt h hn]

theorem uintAt_of_holdsAt {width n : Nat} (h : HoldsAt data offset (ofUint width n))
    (hn : n < 256 ^ width) : uintAt data width offset = .ok n := by
  rw [uintAt, Reader.atOffset, uint_of_holdsAt h hn]

/-- A byte is a number of one byte. -/
theorem uintAt_of_holdsAt_singleton {b : UInt8} (h : HoldsAt data offset [b]) :
    uintAt data 1 offset = .ok b.toNat := by
  refine uintAt_of_holdsAt ?_ b.toNat_lt
  rw [ofUint, UInt8.ofNat_toNat, ofUint]
  exact h

/-- **A run that is written is sliced out.** -/
theorem slice_of_holdsAt (h : HoldsAt data offset xs) :
    slice data offset xs.length = .ok ⟨xs.toArray⟩ := by
  rw [slice, if_pos h.le_size]
  obtain ⟨front, back, hdata, rfl⟩ := h
  congr 1
  apply ByteArray.ext
  apply Array.ext'
  rw [ByteArray.data_extract, Array.toList_extract, hdata, List.extract_eq_take_drop,
    List.drop_left, Nat.add_sub_cancel_left, List.take_left]

/-- The part of the data that a run takes is the run. -/
theorem HoldsAt.extract_eq (h : HoldsAt data offset xs) :
    data.extract offset (offset + xs.length) = ⟨xs.toArray⟩ := by
  have hslice := slice_of_holdsAt h
  rw [slice, if_pos h.le_size] at hslice
  exact Except.ok.inj hslice

/-- A run that stands inside a part of the data stands in that part. -/
theorem HoldsAt.extract (h : HoldsAt data offset xs) (start stop : Nat) (hstart : start ≤ offset)
    (hstop : offset + xs.length ≤ stop) :
    HoldsAt (data.extract start stop) (offset - start) xs := by
  obtain ⟨front, back, hdata, rfl⟩ := h
  refine ⟨front.drop start, back.take (stop - (front.length + xs.length)), ?_, List.length_drop ..⟩
  rw [ByteArray.data_extract, Array.toList_extract, hdata, List.extract_eq_take_drop,
    List.drop_append_of_le_length hstart, List.take_append, List.take_append, List.length_drop,
    List.take_of_length_le (by rw [List.length_drop]; omega), List.take_of_length_le (by omega)]
  congr 3
  omega

/-! ### Pieces one behind the other -/

section Pieces

variable {pieces : List (List UInt8)} {i : Nat} {piece : List UInt8}

/-- The bytes of a heap with some pieces: a zero byte, and the pieces one behind the other. -/
def heapOf (pieces : List (List UInt8)) : ByteArray :=
  ⟨(0 :: pieces.flatten).toArray⟩

/-- Where a piece of the heap starts: behind the zero byte and all pieces before it. -/
def placeOf (pieces : List (List UInt8)) (i : Nat) : Nat :=
  1 + (pieces.take i).flatten.length

theorem starts_heapOf (pieces : List (List UInt8)) :
    0 < (heapOf pieces).size ∧ byteAt (heapOf pieces) 0 = 0 := by
  have hsize : 0 < (heapOf pieces).size := Nat.succ_pos _
  exact ⟨hsize, dif_pos hsize⟩

/-- **Every piece stands at its place.** -/
theorem holdsAt_heapOf (h : pieces[i]? = some piece) :
    HoldsAt (heapOf pieces) (placeOf pieces i) piece := by
  obtain ⟨hi, rfl⟩ := List.getElem?_eq_some_iff.mp h
  refine ⟨0 :: (pieces.take i).flatten, (pieces.drop (i + 1)).flatten, ?_, ?_⟩
  · have hsplit : pieces.flatten =
        (pieces.take i).flatten ++ (pieces[i] ++ (pieces.drop (i + 1)).flatten) := by
      rw [← List.flatten_cons, ← List.drop_eq_getElem_cons hi, ← List.flatten_append,
        List.take_append_drop]
    rw [heapOf, List.toList_toArray, hsplit, List.cons_append]
  · rw [List.length_cons, placeOf, Nat.add_comm]

end Pieces

/-! ### Runs that are ended by a zero byte -/

/-- The first zero byte from `start` on stands at `stop`. -/
structure FirstZero (data : ByteArray) (start stop : Nat) : Prop where
  le : start ≤ stop
  lt_size : stop < data.size
  zero : byteAt data stop = 0
  nonzero : ∀ i, start ≤ i → i < stop → byteAt data i ≠ 0

namespace FirstZero

variable {start stop : Nat}

/-- The same byte is the first one from any byte before it on. -/
theorem from_le (h : FirstZero data start stop) {i : Nat} (hstart : start ≤ i) (hstop : i ≤ stop) :
    FirstZero data i stop :=
  ⟨hstop, h.lt_size, h.zero, fun j hj => h.nonzero j (Nat.le_trans hstart hj)⟩

/-- No byte before it is zero. -/
theorem zero_not_mem (h : FirstZero data start stop) :
    0 ∉ (data.extract start stop).data.toList := by
  intro hmem
  obtain ⟨i, hi, hzero⟩ := List.mem_iff_getElem.mp hmem
  have hlt := h.lt_size
  have hsize : i < min stop data.size - start := by
    rw [← ByteArray.size_extract]
    exact hi
  have hbyte : byteAt (data.extract start stop) i = 0 := (dif_pos hi).trans hzero
  rw [byteAt_extract (by omega) (by omega)] at hbyte
  exact h.nonzero (start + i) (by omega) (by omega) hbyte

/-- It ends the bytes before it. -/
theorem holdsAt (h : FirstZero data start stop) :
    HoldsAt data start ((data.extract start stop).data.toList ++ [0]) := by
  have hlength : data.data.toList.length = data.size := rfl
  have hle := h.le
  have hlt := h.lt_size
  have hzero : data.data.toList[stop] = 0 := by
    rw [← h.zero, byteAt, dif_pos hlt]
    rfl
  refine ⟨data.data.toList.take start, data.data.toList.drop (stop + 1), ?_, ?_⟩
  · have hrest : data.data.toList.drop stop = 0 :: data.data.toList.drop (stop + 1) := by
      rw [List.drop_eq_getElem_cons hlt, hzero]
    have hpart : data.data.toList.drop start =
        (data.data.toList.drop start).take (stop - start) ++ data.data.toList.drop stop := by
      rw [show stop = start + (stop - start) by omega, ← List.drop_drop, Nat.add_sub_cancel_left,
        List.take_append_drop]
    rw [ByteArray.data_extract, Array.toList_extract, List.extract_eq_take_drop, List.append_assoc,
      List.singleton_append, ← hrest, ← hpart, List.take_append_drop]
  · rw [List.length_take, hlength]
    omega

/-- A zero byte is the first one from itself on. -/
theorem eq_of_zero (h : FirstZero data start stop) (hzero : byteAt data start = 0) :
    stop = start := by
  rcases Nat.lt_or_eq_of_le h.le with hlt | heq
  · exact absurd hzero (h.nonzero start (Nat.le_refl _) hlt)
  · exact heq.symm

/-- From a byte that is not zero, the first one is found behind it. -/
theorem succ_iff (hne : byteAt data start ≠ 0) :
    FirstZero data start stop ↔ FirstZero data (start + 1) stop := by
  constructor
  · intro h
    refine h.from_le (Nat.le_succ _) (Nat.lt_of_le_of_ne h.le ?_)
    rintro rfl
    exact hne h.zero
  · intro h
    refine ⟨Nat.le_of_succ_le h.le, h.lt_size, h.zero, fun i hi hstop => ?_⟩
    rcases Nat.lt_or_eq_of_le hi with hlt | rfl
    · exact h.nonzero i hlt hstop
    · exact hne

end FirstZero

/-- The search finds what stands before the first zero byte. -/
theorem untilZero?_go_eq_some_iff {start i : Nat} {part : ByteArray} :
    untilZero?.go data start i = some part ↔
      ∃ stop, FirstZero data i stop ∧ part = data.extract start stop := by
  fun_induction untilZero?.go data start i with
  | case1 i hi hzero =>
      have hbyte : byteAt data i = 0 := (dif_pos hi).trans hzero
      constructor
      · intro h
        exact ⟨i, ⟨Nat.le_refl _, hi, hbyte, fun j hj hlt => by omega⟩, (Option.some.inj h).symm⟩
      · rintro ⟨stop, hstop, rfl⟩
        rw [hstop.eq_of_zero hbyte]
  | case2 i hi hzero ih =>
      have hbyte : byteAt data i ≠ 0 := fun h => hzero ((dif_pos hi).symm.trans h)
      simp only [ih, FirstZero.succ_iff hbyte]
  | case3 i hi =>
      refine iff_of_false nofun ?_
      rintro ⟨stop, hstop, -⟩
      have hle := hstop.le
      have hlt := hstop.lt_size
      omega

/-- **What is found stands before the first zero byte**, and nothing is found if there is none. -/
theorem untilZero?_eq_some_iff {start : Nat} {part : ByteArray} :
    untilZero? data start = some part ↔
      ∃ stop, FirstZero data start stop ∧ part = data.extract start stop :=
  untilZero?_go_eq_some_iff

/-- The zero byte that ends a run is the first one. -/
theorem firstZero_of_holdsAt (h : HoldsAt data offset (xs ++ [0])) (hxs : 0 ∉ xs) :
    FirstZero data offset (offset + xs.length) where
  le := Nat.le_add_right _ _
  lt_size := by
    have hle := h.le_size
    rw [List.length_append, List.length_singleton] at hle
    omega
  zero := h.right.byteAt_eq
  nonzero i hstart hstop := by
    obtain ⟨j, rfl⟩ := Nat.exists_eq_add_of_le hstart
    rw [h.left.byteAt_add (Nat.lt_of_add_lt_add_left hstop)]
    exact fun hzero => hxs (hzero ▸ List.getElem_mem _)

/-- **A run that is ended by a zero byte is found.** -/
theorem untilZero?_of_holdsAt (h : HoldsAt data offset (xs ++ [0])) (hxs : 0 ∉ xs) :
    untilZero? data offset = some ⟨xs.toArray⟩ :=
  untilZero?_eq_some_iff.mpr ⟨_, firstZero_of_holdsAt h hxs, h.left.extract_eq.symm⟩

/-- Where no byte is zero, nothing is found. -/
theorem untilZero?_of_not_mem (hxs : 0 ∉ xs) : untilZero? ⟨xs.toArray⟩ 0 = none := by
  have hdata : HoldsAt ⟨xs.toArray⟩ 0 xs := ⟨[], [], by simp, rfl⟩
  refine Option.eq_none_iff_forall_ne_some.mpr fun part hpart => hxs ?_
  obtain ⟨stop, hstop, -⟩ := untilZero?_eq_some_iff.mp hpart
  have hzero := hdata.byteAt_add hstop.lt_size
  rw [Nat.zero_add, hstop.zero] at hzero
  rw [hzero]
  exact List.getElem_mem _

/-- The bytes before the first zero byte, or all bytes if there is none. -/
theorem untilZero?_getD_eq (xs : List UInt8) :
    (untilZero? ⟨xs.toArray⟩ 0).getD ⟨xs.toArray⟩ = ⟨(xs.takeWhile (· ≠ 0)).toArray⟩ := by
  have hfree {ys : List UInt8} (hys : 0 ∉ ys) : ∀ y ∈ ys, decide (y ≠ 0) = true := fun _ hy =>
    decide_eq_true fun heq => hys (heq ▸ hy)
  by_cases hzero : 0 ∈ xs
  · obtain ⟨front, back, rfl, hfront⟩ := List.eq_append_cons_of_mem hzero
    have hrun : HoldsAt ⟨(front ++ 0 :: back).toArray⟩ 0 (front ++ [0]) := ⟨[], back, by simp, rfl⟩
    rw [untilZero?_of_holdsAt hrun hfront, Option.getD_some,
      List.takeWhile_append_of_pos (hfree hfront), List.takeWhile_cons_of_neg (by simp),
      List.append_nil]
  · rw [untilZero?_of_not_mem hzero, Option.getD_none, List.takeWhile_eq_self_iff.mpr (hfree hzero)]

end Bytes

end AliasStubs
