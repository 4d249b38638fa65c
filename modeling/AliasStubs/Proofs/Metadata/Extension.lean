import AliasStubs.Assembly.Basic
import AliasStubs.Proofs.Metadata.StreamDirectory

/-!
# Metadata with more bytes behind them

Metadata are told from their start: the directory is read from the front and says of each stream
where it lies. Every length that is checked is a least length, and whatever is looked for in bytes
is found at its first place. So reading that succeeds comes to the same if more bytes follow, and a
reader of an extension never sees them.

Reading that fails may succeed with more bytes, so nothing is said of it.

## Main results

* `StreamHeader.read_append`, `StreamDirectory.read_append` : the directory is read as before.
* `StreamDirectory.stream?_append` : so is every stream, and none is found that was not.
* `Metadata.read_append` : opened metadata are **equal**, heaps and tables included.
* `Assembly.types_append` : **trailing bytes never matter**.
-/

namespace AliasStubs

open Bytes

/-! ### Bytes -/

namespace Bytes

variable {data : ByteArray} (more : ByteArray)

/-- A part of the data is a part of the extension. -/
theorem extract_append {start stop : Nat} (h : stop ≤ data.size) :
    (data ++ more).extract start stop = data.extract start stop := by
  have hnone : more.extract (start - data.size) 0 = ByteArray.empty :=
    ByteArray.extract_eq_empty_iff.mpr (by omega)
  rw [ByteArray.extract_append, Nat.sub_eq_zero_of_le h, hnone, ByteArray.append_empty]

/-- A longer part is an extension of the part. -/
theorem extract_append_eq_append {start stop stop' : Nat} (hstart : start ≤ stop)
    (hstop : stop ≤ stop') (h : stop ≤ data.size) :
    (data ++ more).extract start stop' =
      data.extract start stop ++ (data ++ more).extract stop stop' := by
  rw [ByteArray.extract_eq_extract_append_extract stop hstart hstop, extract_append more h]

/-- A number that can be read is read again. -/
theorem uintAt_append {width offset n : Nat} (h : uintAt data width offset = .ok n) :
    uintAt (data ++ more) width offset = .ok n := by
  have hdata : (data ++ more).extract 0 data.size = data :=
    ByteArray.extract_append_eq_left rfl
  have hsize : (data ++ more).size = data.size + more.size := ByteArray.size_append
  obtain ⟨hle, hnumber⟩ := uintAt_eq_ok_iff.mp h
  have hsame : littleEndian ((data ++ more).extract 0 data.size) width offset =
      littleEndian (data ++ more) width (0 + offset) :=
    littleEndian_extract (by omega) (by omega)
  rw [hdata, Nat.zero_add, hnumber] at hsame
  exact uintAt_eq_ok_iff.mpr ⟨by omega, hsame.symm⟩

/-- A slice that is there is there again. -/
theorem slice_append {offset length : Nat} (h : offset + length ≤ data.size) :
    slice (data ++ more) offset length = slice data offset length := by
  have hsize : (data ++ more).size = data.size + more.size := ByteArray.size_append
  rw [slice, slice, if_pos h, if_pos (by omega), extract_append more h]

/-- The first zero byte stays the first one. -/
theorem untilZero?_append {start : Nat} {bytes : ByteArray}
    (h : untilZero? data start = some bytes) : untilZero? (data ++ more) start = some bytes := by
  have hsize : (data ++ more).size = data.size + more.size := ByteArray.size_append
  have hgo (i : Nat) (h : untilZero?.go data start i = some bytes) :
      untilZero?.go (data ++ more) start i = some bytes := by
    fun_induction untilZero?.go data start i with
    | case1 i hlt hzero =>
        rw [untilZero?.go, dif_pos (by omega),
          if_pos ((ByteArray.getElem_append_left hlt).trans hzero),
          extract_append more (Nat.le_of_lt hlt)]
        exact h
    | case2 i hlt hzero ih =>
        rw [untilZero?.go, dif_pos (by omega),
          if_neg ((ByteArray.getElem_append_left hlt).symm ▸ hzero)]
        exact ih h
    | case3 i hge => cases h
  exact hgo start h

end Bytes

/-! ### Directories -/

/-- An entry is read from its own bytes. -/
theorem StreamHeader.read_append {data : ByteArray} (more : ByteArray) {h : StreamHeader}
    (hread : read data = .ok h) : read (data ++ more) = .ok h := by
  have hsize : (data ++ more).size = data.size + more.size := ByteArray.size_append
  rw [read] at hread
  split at hread
  · cases hread
  rename_i hlarge
  have hfield : (data ++ more).extract 8 (min (8 + nameLimit) (data ++ more).size) =
      data.extract 8 (min (8 + nameLimit) data.size) ++
        (data ++ more).extract (min (8 + nameLimit) data.size)
          (min (8 + nameLimit) (data ++ more).size) :=
    extract_append_eq_append more (by rw [nameLimit]; omega) (by omega) (Nat.min_le_right _ _)
  simp only at hread
  split at hread
  · rename_i bytes hname
    split at hread
    · rename_i name htext
      obtain ⟨offset, hoffset, hread⟩ := seq_eq_ok_iff.mp hread
      obtain ⟨size, hlength, hread⟩ := seq_eq_ok_iff.mp hread
      cases hread
      have hname' := untilZero?_append
        ((data ++ more).extract (min (8 + nameLimit) data.size)
          (min (8 + nameLimit) (data ++ more).size)) hname
      rw [← hfield] at hname'
      simp only [read, if_neg (show ¬ (data ++ more).size < 9 by omega), hname', htext,
        uintAt_append more hoffset, uintAt_append more hlength]
      rfl
    · cases hread
  · cases hread

namespace StreamDirectory

variable {data : ByteArray} (more : ByteArray)

/-- A stream that passes the check of its extent passes it in the extension. -/
theorem checkExtent_append {size : Nat} {h : StreamHeader} (hcheck : checkExtent size h = .ok ())
    (further : Nat) : checkExtent (size + further) h = .ok () := by
  have hle := le_of_checkExtent hcheck
  rw [checkExtent] at hcheck ⊢
  split at hcheck
  · cases hcheck
  · rename_i hword
    rw [if_neg hword, if_neg (by omega)]

/-- **Every entry is read from where it was.** -/
theorem readHeaders_append {count offset : Nat} {hs : List StreamHeader}
    (h : readHeaders data count offset = .ok hs) :
    readHeaders (data ++ more) count offset = .ok hs := by
  have hsize : (data ++ more).size = data.size + more.size := ByteArray.size_append
  induction count generalizing offset hs with
  | zero => exact h
  | succ count ih =>
      rw [readHeaders] at h
      split at h
      · cases h
      rename_i hoffset
      obtain ⟨header, hheader, h⟩ := seq_eq_ok_iff.mp h
      obtain ⟨⟨⟩, hcheck, h⟩ := seq_eq_ok_iff.mp h
      obtain ⟨rest, hrest, h⟩ := seq_eq_ok_iff.mp h
      cases h
      have htail : (data ++ more).extract offset (data ++ more).size =
          data.extract offset data.size ++ (data ++ more).extract data.size (data ++ more).size :=
        extract_append_eq_append more (Nat.le_of_not_le hoffset) (by omega) (Nat.le_refl _)
      have hheader' := StreamHeader.read_append
        ((data ++ more).extract data.size (data ++ more).size) hheader
      rw [← htail] at hheader'
      have hcheck' := checkExtent_append hcheck more.size
      rw [← hsize] at hcheck'
      rw [readHeaders, if_neg (by omega)]
      simp only [hheader', hcheck', ih hrest, ok_bind]
      rfl

/-- **The directory is read as before.** -/
theorem read_append {d : StreamDirectory} (h : read data = .ok d) :
    read (data ++ more) = .ok d := by
  have hsize : (data ++ more).size = data.size + more.size := ByteArray.size_append
  obtain ⟨versionSize, count, h⟩ := read_eq_ok_iff.mp h
  have hlarge := h.large
  have hend := h.version_le
  refine read_eq_ok_iff.mpr ⟨versionSize, count, ?_⟩
  exact {
    large := by omega
    magic_eq := uintAt_append more h.magic_eq
    versionSize_eq := uintAt_append more h.versionSize_eq
    version_le := by omega
    version_eq := by rw [extract_append more (by omega), h.version_eq]
    count_eq := uintAt_append more h.count_eq
    range := h.range
    headers_eq := readHeaders_append more h.headers_eq
    majorVersion_eq := uintAt_append more h.majorVersion_eq
    minorVersion_eq := uintAt_append more h.minorVersion_eq }

/-- **Every stream is the same**, and none is found that was not. -/
theorem stream?_append {d : StreamDirectory} (h : read data = .ok d) (name : StreamName) :
    d.stream? (data ++ more) name = d.stream? data name := by
  rw [stream?, stream?]
  cases hfind : d.headers.find? (·.name == name) with
  | none => rfl
  | some header =>
      have hcheck := checkExtent_of_read h header (List.mem_of_find?_eq_some hfind)
      have hslice := slice_append more (le_of_checkExtent hcheck)
      simp only [Option.bind_some, hslice, Option.bind_eq_bind]

end StreamDirectory

/-! ### Metadata -/

/-- **Opened metadata are equal**: nothing that is kept of them comes from behind their streams. -/
theorem Metadata.read_append {data : ByteArray} (more : ByteArray) {m : Metadata}
    (h : read data = .ok m) : read (data ++ more) = .ok m := by
  obtain ⟨d, hdirectory, h⟩ := seq_eq_ok_iff.mp h
  have hstream := StreamDirectory.stream?_append more hdirectory
  have htables : readTables d (data ++ more) = readTables d data := by
    rw [readTables, readTables, hstream, hstream]
  have hstrings : readStrings d (data ++ more) = readStrings d data := by
    rw [readStrings, readStrings, hstream]
  have hblobs : readBlobs d (data ++ more) = readBlobs d data := by
    rw [readBlobs, readBlobs, hstream]
  rw [← htables, ← hstrings, ← hblobs] at h
  exact seq_eq_ok_iff.mpr ⟨d, StreamDirectory.read_append more hdirectory, h⟩

/-- **Trailing bytes never matter.** If an assembly can be opened, it can be opened with any bytes
behind its metadata, and it tells the same types, or fails to in the same way. -/
theorem Assembly.types_append (name : String) {data : ByteArray} (more : ByteArray) {a : Assembly}
    (h : ofMetadata name data = .ok a) :
    ∃ b, ofMetadata name (data ++ more) = .ok b ∧ b.types = a.types := by
  obtain ⟨m, hread, h⟩ := seq_eq_ok_iff.mp h
  cases h
  exact ⟨⟨name, data ++ more, m⟩,
    seq_eq_ok_iff.mpr ⟨m, Metadata.read_append more hread, rfl⟩, rfl⟩

/-- A table stream with one type definition, whose name and namespace have the indexes 1 and 3. -/
def Metadata.plainTables : List UInt8 :=
  ofUint 4 0 ++ [2, 0, 0, 1] ++ ofUint 8 4 ++ ofUint 8 0 ++ ofUint 4 1 ++
    (ofUint 4 0 ++ ofUint 2 1 ++ ofUint 2 3 ++ ofUint 2 0 ++ ofUint 2 1 ++ ofUint 2 1)

/-- The identifiers `A` and `N`. -/
def Metadata.plainStrings : List UInt8 :=
  [0, 65, 0, 78, 0]

/-- The start of metadata with these tables and identifiers. -/
def Metadata.plainContents : StreamDirectory.Contents where
  majorVersion := 1
  minorVersion := 1
  reserved := [0, 0, 0, 1]
  versionField := [118, 52, 0, 0]
  flags := [0, 0]
  entries :=
    [⟨.tables, [1], 56, plainTables, rfl⟩, ⟨.strings, [0, 0, 0], 98, plainStrings, rfl⟩]
  reserved_length := rfl
  flags_length := rfl
  entries_ne_nil := List.cons_ne_nil _ _
  entries_length := by decide

/-- Metadata that define the type `N.A`. Nothing stands behind the last stream. -/
def Metadata.plainBytes : ByteArray :=
  ⟨(plainContents.bytes ++ plainTables ++ plainStrings).toArray⟩

/-- They can be opened. -/
theorem Assembly.exists_ofMetadata_plainBytes (name : String) :
    ∃ a, ofMetadata name Metadata.plainBytes = .ok a := by
  have hread : (Metadata.read Metadata.plainBytes).toBool = true := by decide +kernel
  cases h : Metadata.read Metadata.plainBytes with
  | error e =>
      rw [h] at hread
      cases hread
  | ok m => exact ⟨⟨name, Metadata.plainBytes, m⟩, seq_eq_ok_iff.mpr ⟨m, h, rfl⟩⟩

/-- Two bytes right behind the last identifier, where it would go on if it had no end. -/
theorem Assembly.types_append_plainBytes :
    ∃ a b, ofMetadata "A" Metadata.plainBytes = .ok a ∧
      ofMetadata "A" (Metadata.plainBytes ++ ⟨#[66, 255]⟩) = .ok b ∧ b.types = a.types := by
  obtain ⟨a, ha⟩ := exists_ofMetadata_plainBytes "A"
  obtain ⟨b, hb, htypes⟩ := types_append "A" ⟨#[66, 255]⟩ ha
  exact ⟨a, b, ha, hb, htypes⟩

end AliasStubs
