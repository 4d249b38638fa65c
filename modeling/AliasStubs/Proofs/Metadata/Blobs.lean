import AliasStubs.Metadata.Heap
import AliasStubs.Proofs.Metadata.Compressed
import AliasStubs.Proofs.Sequences

/-!
# Blobs are found behind their lengths

A blob is stored behind its length. The length may be written in any form that is wide enough for
it, and anything may stand between one blob and the next, so where a blob starts depends on all that
is stored before it. An index that leads to a length finds the blob, whatever else the heap holds.

In the other direction nothing is known of an index. Whatever is found there starts right behind a
written form of its length and ends inside the heap. Where nothing is found the heap is cut off, in
front of a length, inside of one or before the end of the blob, unless the byte at the index starts
no length at all.

## Main definitions

* `Compressed.Form` : the forms of a compressed integer.
* `StoredBlob` : a blob with the form of its length; `BlobHeap.laidOut` the heap of some of them.
* `BlobHeap.StoredAt` : a blob stands at an index, behind a form of its length.
* `BlobHeap.CutOffAt` : the heap ends where a blob at an index would go on.

## Main results

* `BlobHeap.get_eq_ok_iff` : a blob is found exactly where it is stored.
* `BlobHeap.get_eq_outOfBounds_iff` : the end of the heap is met exactly where it is cut off.
* `BlobHeap.stored_found` : **blobs that are laid out are found again**, and both of these.
-/

namespace AliasStubs

open Bytes

/-! ### The forms of a length -/

namespace Compressed

/-- The forms of a compressed integer, by the number of bytes. -/
inductive Form
  | one
  | two
  | four
  deriving DecidableEq, Repr

namespace Form

/-- The least number that a form is too narrow for. -/
def limit : Form → Nat
  | one => 0x80
  | two => 0x4000
  | four => 0x20000000

/-- A number written in a form, the most significant byte first. The high bits of the first byte
tell the form. -/
def bytes : Form → (n : Nat) → List UInt8
  | one, n => [UInt8.ofNat n]
  | two, n => [UInt8.ofNat (0x80 + n / 0x100), UInt8.ofNat (n % 0x100)]
  | four, n =>
    [UInt8.ofNat (0xC0 + n / 0x1000000), UInt8.ofNat (n / 0x10000 % 0x100),
      UInt8.ofNat (n / 0x100 % 0x100), UInt8.ofNat (n % 0x100)]

end Form

variable {n : Nat} {p bytes rest : List UInt8} {e : Failure}

/-- **The written forms of a number** are those in the forms that are wide enough. -/
theorem written_iff_form : Written n p ↔ ∃ f : Form, n < f.limit ∧ p = f.bytes n := by
  constructor
  · intro h
    cases h with
    | one h => exact ⟨.one, h, rfl⟩
    | two h => exact ⟨.two, h, rfl⟩
    | four h => exact ⟨.four, h, rfl⟩
  · rintro ⟨f, h, rfl⟩
    cases f with
    | one => exact .one h
    | two => exact .two h
    | four => exact .four h

theorem length_pos_of_written (h : Written n p) : 0 < p.length := by
  cases h <;> simp

theorem length_le_of_written (h : Written n p) : p.length ≤ 4 := by
  cases h <;> simp

/-- A number that cannot be read is cut off, unless its first byte starts no number. -/
theorem uint_eq_error_cases (h : uint bytes = .error e rest) :
    e = .outOfBounds ∨ ∃ lead tail, bytes = lead :: tail ∧ 0xE0 ≤ lead.toNat ∧
      e = .malformed (.badCompressedInteger lead.toNat) := by
  unfold uint at h
  split at h
  · cases h
    exact .inl rfl
  · rename_i lead tail
    split at h
    · cases h
    split at h
    · split at h <;> cases h
      exact .inl rfl
    split at h
    · split at h <;> cases h
      exact .inl rfl
    · rename_i hlead
      cases h
      exact .inr ⟨lead, rest, rfl, Nat.not_lt.mp hlead, rfl⟩

/-- A byte that starts no number ends the reading. -/
theorem uint_of_le {lead : UInt8} (h : 0xE0 ≤ lead.toNat) (tail : List UInt8) :
    uint (lead :: tail) = .error (.malformed (.badCompressedInteger lead.toNat)) tail := by
  have h0 : ¬ lead < 0x80 := Nat.not_lt.mpr (Nat.le_trans (by decide) h)
  have h1 : ¬ lead < 0xC0 := Nat.not_lt.mpr (Nat.le_trans (by decide) h)
  have h2 : ¬ lead < 0xE0 := Nat.not_lt.mpr h
  simp only [uint, h0, h1, h2, if_false]

/-- **A number that is cut off** can be completed to a written form. -/
theorem exists_written_of_uint_eq_outOfBounds (h : uint bytes = .error .outOfBounds rest) :
    ∃ n missing, missing ≠ [] ∧ Written n (bytes ++ missing) := by
  -- It is enough to add bytes with which the number can be read to the end.
  suffices hread : ∃ n missing, missing ≠ [] ∧ uint (bytes ++ missing) = .ok n [] by
    obtain ⟨n, missing, hne, hread⟩ := hread
    obtain ⟨p, hp, hwritten⟩ := written_of_uint hread
    rw [List.append_nil] at hp
    exact ⟨n, missing, hne, hp ▸ hwritten⟩
  unfold uint at h
  split at h
  · exact ⟨0, [0], List.cons_ne_nil _ _, rfl⟩
  · rename_i lead tail
    split at h
    · cases h
    rename_i h0
    have h0 : 0x80 ≤ lead.toNat := Nat.not_lt.mp h0
    split at h
    · rename_i h1
      split at h
      · cases h
      · exact ⟨_, [0], List.cons_ne_nil _ _, uint_two h0 h1 0 []⟩
    rename_i h1
    have h1 : 0xC0 ≤ lead.toNat := Nat.not_lt.mp h1
    split at h
    · rename_i h2
      split at h
      · cases h
      · rename_i hfew
        rcases tail with _ | ⟨b1, _ | ⟨b2, _ | ⟨b3, tail⟩⟩⟩
        · exact ⟨_, [0, 0, 0], List.cons_ne_nil _ _, uint_four h1 h2 0 0 0 []⟩
        · exact ⟨_, [0, 0], List.cons_ne_nil _ _, uint_four h1 h2 b1 0 0 []⟩
        · exact ⟨_, [0], List.cons_ne_nil _ _, uint_four h1 h2 b1 b2 0 []⟩
        · exact absurd rfl (hfew b1 b2 b3 tail)
    · cases h

end Compressed

open Compressed

/-! ### What stands at an index -/

/-- What is sliced out right behind a run stands there. -/
theorem Bytes.holdsAt_append_of_slice {data blob : ByteArray} {offset n : Nat} {xs : List UInt8}
    (hxs : HoldsAt data offset xs) (h : slice data (offset + xs.length) n = .ok blob) :
    HoldsAt data offset (xs ++ blob.data.toList) := by
  obtain ⟨front, rest, hdata, rfl⟩ := hxs
  rw [slice] at h
  split at h
  · have hblob : blob.data.toList = rest.take n := by
      rw [← Except.ok.inj h, ByteArray.data_extract, Array.toList_extract,
        List.extract_eq_take_drop, hdata, ← List.append_assoc, ← List.length_append,
        List.drop_left, Nat.add_sub_cancel_left]
    refine ⟨front, rest.drop n, ?_, rfl⟩
    rw [hdata, hblob, List.append_assoc, List.take_append_drop]
  · cases h

namespace BlobHeap

variable {h : BlobHeap} {index n : Nat} {p : List UInt8} {e : Failure}

/-- What is left of a heap at an index. -/
def left (h : BlobHeap) (index : Nat) : List UInt8 :=
  h.data.data.toList.drop index

/-- A blob **is stored at** an index: a written form of its length stands there, and the blob right
behind it. -/
def StoredAt (h : BlobHeap) (index : Nat) (blob : List UInt8) : Prop :=
  ∃ p, Written blob.length p ∧ HoldsAt h.data index (p ++ blob)

/-- A heap **is cut off at** an index: what is left there could be completed to a blob behind its
length, but not without more bytes. -/
def CutOffAt (h : BlobHeap) (index : Nat) : Prop :=
  ∃ blob p missing, Written (List.length blob) p ∧ missing ≠ [] ∧
    p ++ blob = h.left index ++ missing

theorem left_of_holdsAt {xs : List UInt8} (hxs : HoldsAt h.data index xs) :
    ∃ back, h.left index = xs ++ back := by
  obtain ⟨front, back, hdata, rfl⟩ := hxs
  exact ⟨back, by rw [left, hdata, List.drop_left]⟩

theorem holdsAt_of_left {xs back : List UInt8} (hle : index ≤ h.data.size)
    (hleft : h.left index = xs ++ back) : HoldsAt h.data index xs := by
  have hlength : h.data.data.toList.length = h.data.size := rfl
  refine ⟨h.data.data.toList.take index, back, ?_, ?_⟩
  · rw [← hleft, left, List.take_append_drop]
  · rw [List.length_take, hlength, Nat.min_eq_left hle]

/-- A length is read from the first four bytes that are left. -/
theorem toList_field (h : BlobHeap) (index : Nat) :
    (h.data.extract index (min (index + 4) h.data.size)).data.toList = (h.left index).take 4 := by
  have hlength : h.data.data.toList.length = h.data.size := rfl
  rw [ByteArray.data_extract, Array.toList_extract, List.extract_eq_take_drop, left,
    List.take_eq_take_iff, List.length_drop, hlength]
  omega

/-- The length of a blob is read where it stands. -/
theorem extent_of_written (hwritten : Written n p) (hp : HoldsAt h.data index p) :
    h.extent index = .ok (index + p.length, n) := by
  obtain ⟨back, hback⟩ := left_of_holdsAt hp
  have hfield : (h.left index).take 4 = p ++ back.take (4 - p.length) := by
    rw [hback, List.take_append, List.take_of_length_le (length_le_of_written hwritten)]
  simp only [extent, toList_field, hfield, uint_append hwritten, List.length_append,
    Nat.add_sub_cancel]

/-- What is read as a length stands there. -/
theorem written_of_extent {start : Nat} (hextent : h.extent index = .ok (start, n)) :
    ∃ p, Written n p ∧ HoldsAt h.data index p ∧ start = index + p.length := by
  simp only [extent, toList_field] at hextent
  split at hextent
  · rename_i rest hread
    cases hextent
    obtain ⟨p, hfield, hwritten⟩ := written_of_uint hread
    have hleft : h.left index = p ++ (rest ++ (h.left index).drop 4) := by
      rw [← List.append_assoc, ← hfield, List.take_append_drop]
    refine ⟨p, hwritten, holdsAt_of_left ?_ hleft, ?_⟩
    · -- Something is left, as no form of a length is empty.
      by_contra hgt
      have hlength : h.data.data.toList.length = h.data.size := rfl
      rw [left, List.drop_of_length_le (by omega)] at hfield
      have hpos := length_pos_of_written hwritten
      rw [(List.append_eq_nil_iff.mp (hfield.symm.trans List.take_nil)).1] at hpos
      exact absurd hpos (Nat.lt_irrefl 0)
    · rw [hfield, List.length_append, Nat.add_sub_cancel]
  · cases hextent

/-- What cannot be read as a length fails as a compressed integer. -/
theorem uint_of_extent_eq_error (hextent : h.extent index = .error e) :
    ∃ rest, uint ((h.left index).take 4) = .error e rest := by
  simp only [extent, toList_field] at hextent
  split at hextent
  · cases hextent
  · rename_i rest hread
    cases hextent
    exact ⟨rest, hread⟩

/-! ### What is found -/

/-- As many bytes are taken as the length says. -/
theorem get_of_written (hwritten : Written n p) (hp : HoldsAt h.data index p) :
    h.get index = slice h.data (index + p.length) n := by
  have hle := hp.le_size
  have hpos := length_pos_of_written hwritten
  rw [get, if_neg (by omega), extent_of_written hwritten hp, ok_bind]

/-- **Everything that a look-up can do**: there is nothing at the index, or no length, or a length
with the bytes behind it. -/
theorem get_cases (h : BlobHeap) (index : Nat) :
    (h.left index = [] ∧ h.get index = .error .outOfBounds) ∨
    (∃ e rest, uint ((h.left index).take 4) = .error e rest ∧ h.get index = .error e) ∨
    ∃ p n, Written n p ∧ HoldsAt h.data index p ∧
      h.get index = slice h.data (index + p.length) n := by
  by_cases hend : h.data.size ≤ index
  · exact .inl ⟨List.drop_of_length_le hend, if_pos hend⟩
  cases hextent : h.extent index with
  | error e =>
      obtain ⟨rest, hread⟩ := uint_of_extent_eq_error hextent
      exact .inr (.inl ⟨e, rest, hread, by rw [get, if_neg hend, hextent]; rfl⟩)
  | ok found =>
      obtain ⟨start, n⟩ := found
      obtain ⟨p, hwritten, hp, -⟩ := written_of_extent hextent
      exact .inr (.inr ⟨p, _, hwritten, hp, get_of_written hwritten hp⟩)

/-- **A blob that is stored is found.** -/
theorem StoredAt.get_eq {blob : List UInt8} (hstored : h.StoredAt index blob) :
    h.get index = .ok ⟨blob.toArray⟩ := by
  obtain ⟨p, hwritten, hholds⟩ := hstored
  rw [get_of_written hwritten hholds.left]
  exact slice_of_holdsAt hholds.right

/-- **A blob is found exactly where it is stored.** -/
theorem get_eq_ok_iff {blob : ByteArray} :
    h.get index = .ok blob ↔ h.StoredAt index blob.data.toList := by
  refine ⟨fun hget => ?_, fun hstored => hstored.get_eq⟩
  rcases get_cases h index with ⟨-, heq⟩ | ⟨e, rest, -, heq⟩ | ⟨p, n, hwritten, hp, heq⟩ <;>
    rw [hget] at heq
  · cases heq
  · cases heq
  · have hsize : blob.data.toList.length = n := size_of_slice heq.symm
    refine ⟨p, hsize.symm ▸ hwritten, holdsAt_append_of_slice hp heq.symm⟩

/-! ### Why nothing is found -/

/-- What is not found meets the end of the heap, unless the first byte starts no length. -/
theorem get_eq_error_cases (hget : h.get index = .error e) :
    e = .outOfBounds ∨ ∃ lead rest, h.left index = lead :: rest ∧ 0xE0 ≤ lead.toNat ∧
      e = .malformed (.badCompressedInteger lead.toNat) := by
  rcases get_cases h index with ⟨-, heq⟩ | ⟨e', rest, hread, heq⟩ | ⟨p, n, -, -, heq⟩ <;>
    rw [hget] at heq
  · exact .inl (Except.error.inj heq)
  · obtain rfl := Except.error.inj heq
    rcases uint_eq_error_cases hread with rfl | ⟨lead, tail, htake, hlead, rfl⟩
    · exact .inl rfl
    · have hleft : h.left index = lead :: (tail ++ (h.left index).drop 4) := by
        rw [← List.cons_append, ← htake, List.take_append_drop]
      exact .inr ⟨lead, _, hleft, hlead, rfl⟩
  · rw [slice] at heq
    split at heq <;> cases heq
    exact .inl rfl

/-- A length that runs past the end cuts off the heap. -/
theorem cutOffAt_of_written (hwritten : Written n p) (hp : HoldsAt h.data index p)
    (hpast : h.data.size < index + p.length + n) : h.CutOffAt index := by
  obtain ⟨back, hleft⟩ := left_of_holdsAt hp
  have hlength := congrArg List.length hleft
  have hdata : h.data.data.toList.length = h.data.size := rfl
  rw [left, List.length_drop, hdata, List.length_append] at hlength
  have hle := hp.le_size
  have hshort : back.length < n := by omega
  -- The blob is completed with as many zeros as are missing.
  refine ⟨back ++ List.replicate (n - back.length) 0, p, List.replicate (n - back.length) 0,
    ?_, ?_, ?_⟩
  · rwa [List.length_append, List.length_replicate, Nat.add_sub_cancel' (Nat.le_of_lt hshort)]
  · exact List.ne_nil_of_length_pos (by rw [List.length_replicate]; omega)
  · rw [hleft, List.append_assoc]

/-- A length that is cut off itself cuts off the heap, too. -/
theorem cutOffAt_of_uint {rest : List UInt8}
    (hread : uint ((h.left index).take 4) = .error .outOfBounds rest) : h.CutOffAt index := by
  obtain ⟨n, missing, hne, hwritten⟩ := exists_written_of_uint_eq_outOfBounds hread
  have hle := length_le_of_written hwritten
  have hpos := List.length_pos_of_ne_nil hne
  rw [List.length_append, List.length_take] at hle
  -- The field is shorter than four bytes, so it is all that is left.
  rw [List.take_of_length_le (by omega)] at hwritten
  refine ⟨List.replicate n 0, _, missing ++ List.replicate n 0, ?_, ?_, List.append_assoc ..⟩
  · rwa [List.length_replicate]
  · exact List.append_ne_nil_of_left_ne_nil hne _

/-- The heap is cut off where its end is met. -/
theorem cutOffAt_of_get (hget : h.get index = .error .outOfBounds) : h.CutOffAt index := by
  rcases get_cases h index with ⟨hleft, -⟩ | ⟨e, rest, hread, heq⟩ | ⟨p, n, hwritten, hp, heq⟩
  · -- Nothing is left, so any blob would need more bytes.
    exact ⟨[], [0], [0], .one (by decide), List.cons_ne_nil _ _, by rw [hleft]; rfl⟩
  · rw [hget] at heq
    obtain rfl := Except.error.inj heq
    exact cutOffAt_of_uint hread
  · rw [hget, slice] at heq
    split at heq
    · cases heq
    · exact cutOffAt_of_written hwritten hp (by omega)

/-- A heap that is cut off holds no blob there, and no byte that starts no length. -/
theorem CutOffAt.get_eq (hcut : h.CutOffAt index) : h.get index = .error .outOfBounds := by
  obtain ⟨blob, p, missing, hwritten, hne, heq⟩ := hcut
  have hread := uint_append hwritten blob
  cases hget : h.get index with
  | ok found =>
      -- Both lengths are read from the same bytes, so the blob is all there.
      obtain ⟨q, hq, hholds⟩ := get_eq_ok_iff.mp hget
      obtain ⟨back, hleft⟩ := left_of_holdsAt hholds
      rw [heq, hleft, List.append_assoc, List.append_assoc, uint_append hq] at hread
      obtain ⟨hlength, hblob⟩ := EStateM.Result.ok.inj hread
      rw [← hblob] at hlength
      simp only [List.length_append] at hlength
      have hpos := List.length_pos_of_ne_nil hne
      omega
  | error e =>
      rcases get_eq_error_cases hget with rfl | ⟨lead, rest, hleft, hlead, -⟩
      · rfl
      · rw [heq, hleft, List.cons_append, uint_of_le hlead] at hread
        cases hread

/-- **The end of the heap is met exactly where it is cut off.** -/
theorem get_eq_outOfBounds_iff : h.get index = .error .outOfBounds ↔ h.CutOffAt index :=
  ⟨cutOffAt_of_get, CutOffAt.get_eq⟩

end BlobHeap

/-! ### Blobs that are laid out -/

/-- A blob as it is stored: its length in a form that is wide enough, and what follows it up to the
next one. -/
structure StoredBlob where
  /-- The bytes of the blob. -/
  blob : List UInt8
  /-- The form of its length. -/
  form : Form
  /-- The form is wide enough. -/
  fits : blob.length < form.limit
  /-- What follows the blob. -/
  gap : List UInt8

namespace StoredBlob

/-- The length, the blob and what follows it. -/
def bytes (s : StoredBlob) : List UInt8 :=
  (s.form.bytes s.blob.length ++ s.blob) ++ s.gap

end StoredBlob

namespace BlobHeap

/-- The bytes of a heap with some blobs, one behind the other. -/
def laidOut (stored : List StoredBlob) : ByteArray :=
  heapOf (stored.map StoredBlob.bytes)

/-- Where the length of a blob stands in this heap. -/
def placeOf (stored : List StoredBlob) (i : Nat) : Nat :=
  Bytes.placeOf (stored.map StoredBlob.bytes) i

/-- A blob that is laid out is stored at its place. -/
theorem storedAt_laidOut {stored : List StoredBlob} {i : Nat} {s : StoredBlob}
    (hs : stored[i]? = some s) : StoredAt ⟨laidOut stored⟩ (placeOf stored i) s.blob := by
  have hpiece : (stored.map StoredBlob.bytes)[i]? = some s.bytes := by
    rw [List.getElem?_map, hs]
    rfl
  exact ⟨_, written_iff_form.mpr ⟨_, s.fits, rfl⟩, (holdsAt_heapOf hpiece).left⟩

/-- **Blobs that are laid out are found again.** Whatever the forms of their lengths and whatever
stands between them, the heap is accepted, and an index to the length of a blob finds this blob. In
any heap, what is found at an index starts right behind a written form of its length and ends inside
the heap, and every blob that stands so is found. A length that runs past the end meets the end of
the heap, and so do exactly the indexes at which the heap is cut off. -/
theorem stored_found :
    (∀ stored : List StoredBlob, ∃ h, ofBytes (laidOut stored) = .ok h ∧
      ∀ i s, stored[i]? = some s → h.get (placeOf stored i) = .ok ⟨s.blob.toArray⟩) ∧
    (∀ (h : BlobHeap) index (blob : ByteArray), h.get index = .ok blob ↔
      ∃ p, Written blob.size p ∧ HoldsAt h.data index (p ++ blob.data.toList)) ∧
    (∀ (h : BlobHeap) index n p, Written n p → HoldsAt h.data index p →
      h.data.size < index + p.length + n → h.get index = .error .outOfBounds) ∧
    ∀ (h : BlobHeap) index, h.get index = .error .outOfBounds ↔ h.CutOffAt index := by
  refine ⟨fun stored => ⟨⟨laidOut stored⟩, ?_, fun i s hs => (storedAt_laidOut hs).get_eq⟩,
    fun h index blob => get_eq_ok_iff, fun h index n p hwritten hp hpast => ?_,
    fun h index => get_eq_outOfBounds_iff⟩
  · exact if_pos (starts_heapOf _)
  · exact (cutOffAt_of_written hwritten hp hpast).get_eq

/-- Two blobs behind longer forms of their lengths than they need, and a length that runs past the
end. -/
def craftedBlobs : List StoredBlob :=
  [⟨[0x00, 0x01, 0x02], .four, by decide, [0xFF]⟩, ⟨[0xAA], .two, by decide, [0x02, 0xBB]⟩]

theorem stored_found_crafted :
    (∃ h, ofBytes (laidOut craftedBlobs) = .ok h ∧ h.get 9 = .ok ⟨#[0xAA]⟩) ∧
    get ⟨laidOut craftedBlobs⟩ 12 = .error .outOfBounds := by
  obtain ⟨hlaid, -, hpast, -⟩ := stored_found
  obtain ⟨h, hh, hget⟩ := hlaid craftedBlobs
  have hlength : HoldsAt (laidOut craftedBlobs) 12 [0x02] :=
    ⟨(laidOut craftedBlobs).data.toList.take 12, [0xBB], rfl, rfl⟩
  exact ⟨⟨h, hh, hget 1 _ rfl⟩, hpast _ 12 2 [0x02] (.one (by decide)) hlength (by decide)⟩

end BlobHeap

end AliasStubs
