import AliasStubs.Metadata.Heap
import AliasStubs.Proofs.Bytes
import AliasStubs.Proofs.Text.Utf8

/-!
# Texts and their tails

A text of the identifier heap starts at its index and ends before the next zero byte. An index into
the middle of a text finds the tail of the text, so that texts which end alike may share their
bytes. This is so only where a character ends: the bytes of a text from the middle of a character on
are no text.

## Main definitions

* `StringHeap.laidOut` : the heap of some texts, `StringHeap.placeOf` where one of them starts.

## Main results

* `StringHeap.get_eq_ok_iff` : what is found is what stands before the first zero byte.
* `StringHeap.get_eq_ok_iff_holdsAt` : a text is found exactly where it stands in front of a zero
  byte.
* `StringHeap.get_tail` : an index into a text finds a tail of it, or nothing.
* `StringHeap.tails_found` : **all of this, and texts that are laid out are found with their
  tails**.
-/

namespace AliasStubs

open Bytes Text

/-! ### Tails of texts -/

namespace Text

variable {s : String} {b : ByteArray} {k : Nat}

theorem fromUTF8?_eq_some_iff : String.fromUTF8? b = some s ↔ b = s.toByteArray := by
  rw [String.fromUTF8?]
  constructor
  · intro h
    split at h
    · cases h
      rfl
    · cases h
  · rintro rfl
    exact dif_pos s.isValidUTF8

/-- Behind the end of a character stands a tail of the text. -/
theorem exists_tail (h : (String.Pos.Raw.mk k).IsValid s) :
    ∃ front tail, s = front ++ tail ∧ front.utf8ByteSize = k ∧
      s.toByteArray.extract k s.utf8ByteSize = tail.toByteArray := by
  obtain ⟨front, tail, rfl, hk⟩ := String.Pos.Raw.isValid_iff_exists_append.mp h
  obtain rfl : k = front.utf8ByteSize := congrArg String.Pos.Raw.byteIdx hk
  refine ⟨front, tail, rfl, rfl, ?_⟩
  rw [String.toByteArray_append]
  exact ByteArray.extract_append_eq_right rfl String.utf8ByteSize_append

end Text

namespace StringHeap

variable {h : StringHeap} {i stop : Nat} {s : String}

/-! ### What is found -/

/-- What stands before the first zero byte is read as a text. -/
theorem get_of_firstZero (hstop : FirstZero h.data i stop) :
    h.get i = match String.fromUTF8? (h.data.extract i stop) with
      | some s => .ok s
      | none => .error (.malformed (.badString i)) := by
  have hlt := Nat.lt_of_le_of_lt hstop.le hstop.lt_size
  rw [get, if_neg (Nat.not_le.mpr hlt), untilZero?_eq_some_iff.mpr ⟨stop, hstop, rfl⟩]
  rfl

/-- **What is found is what stands before the first zero byte.** -/
theorem get_eq_ok_iff : h.get i = .ok s ↔
    ∃ stop, FirstZero h.data i stop ∧ h.data.extract i stop = s.toByteArray := by
  constructor
  · intro hget
    rw [get] at hget
    split at hget
    · cases hget
    · split at hget
      · rename_i hfound
        cases hget
        obtain ⟨part, hpart, hs⟩ := Option.bind_eq_some_iff.mp hfound
        obtain ⟨stop, hstop, rfl⟩ := untilZero?_eq_some_iff.mp hpart
        exact ⟨stop, hstop, fromUTF8?_eq_some_iff.mp hs⟩
      · cases hget
  · rintro ⟨stop, hstop, hs⟩
    rw [get_of_firstZero hstop, fromUTF8?_eq_some_iff.mpr hs]

/-- **A text is found exactly where it stands in front of a zero byte.** -/
theorem get_eq_ok_iff_holdsAt :
    h.get i = .ok s ↔ ZeroFree s ∧ HoldsAt h.data i (bytes s ++ [0]) := by
  constructor
  · intro hget
    obtain ⟨stop, hstop, hs⟩ := get_eq_ok_iff.mp hget
    have hbytes : (h.data.extract i stop).data.toList = bytes s := by
      rw [hs]
      rfl
    rw [← hbytes, zeroFree_iff, ← hbytes]
    exact ⟨hstop.zero_not_mem, hstop.holdsAt⟩
  · rintro ⟨hfree, hholds⟩
    have hstop := firstZero_of_holdsAt hholds (zeroFree_iff.mp hfree)
    exact get_eq_ok_iff.mpr ⟨_, hstop, hholds.left.extract_eq⟩

/-! ### Indexes into texts -/

/-- **An index into a text** finds the tail of it behind the end of a character, and nothing in the
middle of a character. -/
theorem get_tail (hget : h.get i = .ok s) {k : Nat} (hk : k ≤ s.utf8ByteSize) :
    if (String.Pos.Raw.mk k).IsValid s then
      ∃ front tail, s = front ++ tail ∧ front.utf8ByteSize = k ∧ h.get (i + k) = .ok tail
    else
      h.get (i + k) = .error (.malformed (.badString (i + k))) := by
  obtain ⟨stop, hstop, hs⟩ := get_eq_ok_iff.mp hget
  have hle := hstop.le
  have hlt := hstop.lt_size
  have hsize : s.utf8ByteSize = stop - i := by
    rw [← String.size_toByteArray, ← hs, ByteArray.size_extract]
    omega
  have hrest : FirstZero h.data (i + k) stop := hstop.from_le (by omega) (by omega)
  have hpart : h.data.extract (i + k) stop = s.toByteArray.extract k s.utf8ByteSize := by
    rw [← hs, ByteArray.extract_extract, hsize, Nat.add_sub_cancel' hle, Nat.min_self]
  split
  · rename_i hvalid
    obtain ⟨front, tail, happend, hfront, htail⟩ := exists_tail hvalid
    exact ⟨front, tail, happend, hfront, get_eq_ok_iff.mpr ⟨stop, hrest, hpart.trans htail⟩⟩
  · rename_i hvalid
    have hnone : String.fromUTF8? (h.data.extract (i + k) stop) = none := by
      refine dif_neg fun hutf8 => hvalid ?_
      exact String.Pos.Raw.isValid_iff_isValidUTF8_extract_utf8ByteSize.mpr ⟨hk, hpart ▸ hutf8⟩
    rw [get_of_firstZero hrest, hnone]

/-! ### Texts that are laid out -/

/-- The bytes of a text and the zero byte that ends it. -/
def stored (s : String) : List UInt8 :=
  bytes s ++ [0]

/-- The bytes of a heap with some texts, one behind the other. -/
def laidOut (texts : List String) : ByteArray :=
  heapOf (texts.map stored)

/-- Where a text starts in this heap. -/
def placeOf (texts : List String) (i : Nat) : Nat :=
  Bytes.placeOf (texts.map stored) i

/-- Every text that is laid out is found, and so are its tails. -/
theorem get_laidOut {texts : List String} (hfree : ∀ t ∈ texts, ZeroFree t) {i : Nat}
    {front tail : String} (htext : texts[i]? = some (front ++ tail)) :
    get ⟨laidOut texts⟩ (placeOf texts i + front.utf8ByteSize) = .ok tail := by
  have hpiece : (texts.map stored)[i]? = some (stored (front ++ tail)) := by
    rw [List.getElem?_map, htext]
    rfl
  have hholds := holdsAt_heapOf hpiece
  rw [stored, bytes_append, List.append_assoc] at hholds
  have htail := hholds.right
  rw [length_bytes] at htail
  have hwhole := hfree _ (List.mem_of_getElem? htext)
  rw [ZeroFree, String.toList_append, List.mem_append, not_or] at hwhole
  exact get_eq_ok_iff_holdsAt.mpr ⟨hwhole.2, htail⟩

/-- **Texts are found with their tails.** In any heap, what is found at an index is what stands
there before the first zero byte, if this is UTF-8. Wherever a text is found, every index into it
finds the tail of it that starts there, or nothing if this is in the middle of a character.
Therefore a text without the character zero is found wherever it stands in front of a zero byte,
whatever it shares its bytes with, and texts that are laid out one behind the other are found with
all of their tails. -/
theorem tails_found :
    (∀ (h : StringHeap) i s, h.get i = .ok s ↔ ∃ stop, FirstZero h.data i stop ∧
      ∃ hvalid : (h.data.extract i stop).IsValidUTF8, String.fromUTF8 _ hvalid = s) ∧
    (∀ (h : StringHeap) i s, h.get i = .ok s → ∀ k ≤ s.utf8ByteSize,
      if (String.Pos.Raw.mk k).IsValid s then
        ∃ front tail, s = front ++ tail ∧ front.utf8ByteSize = k ∧ h.get (i + k) = .ok tail
      else
        h.get (i + k) = .error (.malformed (.badString (i + k)))) ∧
    (∀ (h : StringHeap) i s, h.get i = .ok s ↔
      ZeroFree s ∧ HoldsAt h.data i (bytes s ++ [0])) ∧
    ∀ texts : List String, (∀ t ∈ texts, ZeroFree t) → ∃ h, ofBytes (laidOut texts) = .ok h ∧
      ∀ i front tail, texts[i]? = some (front ++ tail) →
        h.get (placeOf texts i + front.utf8ByteSize) = .ok tail := by
  refine ⟨fun h i s => ?_, fun h i s hget k hk => get_tail hget hk,
    fun h i s => get_eq_ok_iff_holdsAt, fun texts hfree =>
      ⟨⟨laidOut texts⟩, if_pos (starts_heapOf _), fun i front tail => get_laidOut hfree⟩⟩
  rw [get_eq_ok_iff]
  constructor
  · rintro ⟨stop, hstop, hs⟩
    exact ⟨stop, hstop, hs ▸ s.isValidUTF8, String.toByteArray_inj.mp hs⟩
  · rintro ⟨stop, hstop, hvalid, rfl⟩
    exact ⟨stop, hstop, rfl⟩

theorem tails_found_accented :
    ∃ h, ofBytes (laidOut ["Größe", "€"]) = .ok h ∧ h.get 5 = .ok "ße" ∧
      h.get 4 = .error (.malformed (.badString 4)) ∧ h.get 9 = .ok "€" := by
  obtain ⟨-, htails, -, hlaid⟩ := tails_found
  obtain ⟨h, hh, hget⟩ := hlaid ["Größe", "€"] (by decide)
  have hword : h.get 1 = .ok "Größe" := hget 0 "" "Größe" rfl
  have hinside := htails h 1 "Größe" hword 3 (by decide)
  rw [if_neg (by decide)] at hinside
  exact ⟨h, hh, hget 0 "Grö" "ße" rfl, hinside, hget 1 "" "€" rfl⟩

end StringHeap

end AliasStubs
