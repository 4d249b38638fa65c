import AliasStubs.Metadata.Opened
import AliasStubs.Proofs.Machine.Directory
import AliasStubs.Proofs.Machine.Simulation
import AliasStubs.Proofs.Machine.Tables

/-!
# Heaps and opened metadata on a machine

An index into a heap comes from a row, and nothing is known of it. It is compared with the size of
the heap, and all that follows happens in the tail that starts there: a text is looked for up to a
zero byte, and a blob is taken by a parser, which reads its length first.

## Main definitions

* `Machine.text`, `Machine.blobAt` : look-ups in the heaps.
* `Machine.View` : opened metadata as a machine keeps them, `View.of` keeps metadata.
* `Machine.Held` : what is known of all metadata that are opened.

## Main results

* `Machine.text_eq`, `Machine.blobAt_eq` : **looking into a heap never faults**.
* `View.read_eq` : **opening metadata never faults**, whatever the bytes.
* `Machine.held_of_read` : metadata that are opened can be held.
-/

namespace AliasStubs.Machine

variable {data : ByteArray}

/-! ### Texts -/

/-- Checks that a heap starts with a zero byte. -/
def checkHeap (data : ByteArray) (defect : Defect) : Checked Unit := do
  if data.size = 0 then
    throw (.failure (.malformed defect))
  if (← byteAt data 0) ≠ 0 then
    throw (.failure (.malformed defect))

/-- The text that starts at `index` and ends before the next zero byte. -/
def text (h : StringHeap) (index : Nat) : Checked String :=
  if h.data.size ≤ index then
    throw (.failure .outOfBounds)
  else do
    let tail ← sliceFrom h.data index
    match (← untilZero? tail).bind String.fromUTF8? with
    | some s => return s
    | none => throw (.failure (.malformed (.badString index)))

/-- A heap is refused exactly if it is empty or starts with another byte. -/
theorem checkHeap_eq (data : ByteArray) (defect : Defect) :
    checkHeap data defect =
      lift (if 0 < data.size ∧ Bytes.byteAt data 0 = 0 then .ok ()
        else .error (.malformed defect)) := by
  rw [checkHeap]
  by_cases hsize : data.size = 0
  · simp only [hsize, Nat.lt_irrefl, false_and, if_false]
    rfl
  · have hpos : 0 < data.size := Nat.pos_of_ne_zero hsize
    simp only [if_neg hsize, byteAt_of_lt hpos, hpos, true_and, ne_eq, ite_not, ok_bind]
    by_cases hzero : Bytes.byteAt data 0 = 0
    · simp only [if_pos hzero]
      rfl
    · simp only [if_neg hzero]
      rfl

/-- A zero byte of a tail is one of the whole. -/
theorem zeroFrom?_extract (start i : Nat) :
    zeroFrom? (data.extract start data.size) i =
      (zeroFrom? data (start + i)).map (· - start) := by
  have hsize : (data.extract start data.size).size = data.size - start := by
    rw [ByteArray.size_extract, Nat.min_self]
  fun_induction zeroFrom? (data.extract start data.size) i with
  | case1 i hlt hzero =>
      have hwhole : start + i < data.size := by omega
      rw [Bytes.byteAt_extract hwhole (Nat.le_refl _)] at hzero
      rw [zeroFrom?, if_pos hwhole, if_pos hzero, Option.map_some, Nat.add_sub_cancel_left]
  | case2 i hlt hzero ih =>
      have hwhole : start + i < data.size := by omega
      rw [Bytes.byteAt_extract hwhole (Nat.le_refl _)] at hzero
      rw [ih, zeroFrom?.eq_def data (start + i), if_pos hwhole, if_neg hzero]
      rfl
  | case3 i hge =>
      have hwhole : ¬ start + i < data.size := by omega
      rw [zeroFrom?, if_neg hwhole]
      rfl

theorem le_of_zeroFrom? {i stop : Nat} (h : zeroFrom? data i = some stop) : i ≤ stop := by
  fun_induction zeroFrom? data i with
  | case1 i => cases h; exact Nat.le_refl _
  | case2 i _ _ ih => exact Nat.le_of_succ_le (ih h)
  | case3 => cases h

/-- A text in a tail is one in the whole. -/
theorem untilZero?_extract (start : Nat) :
    Bytes.untilZero? (data.extract start data.size) 0 = Bytes.untilZero? data start := by
  rw [Bytes.untilZero?, untilZero?_go_eq, zeroFrom?_extract, Nat.add_zero, Bytes.untilZero?,
    untilZero?_go_eq]
  cases hzero : zeroFrom? data start with
  | none => rfl
  | some stop =>
      have hstart := le_of_zeroFrom? hzero
      have hstop := zeroFrom?_lt hzero
      rw [Option.map_some, Option.map_some, Option.map_some, ByteArray.extract_extract]
      congr 2
      omega

/-- **Looking up a text never faults.** -/
theorem text_eq (h : StringHeap) (index : Nat) : text h index = lift (h.get index) := by
  rw [text, StringHeap.get]
  by_cases hindex : h.data.size ≤ index
  · rw [if_pos hindex, if_pos hindex]
    rfl
  · have htail := sliceFrom_of_le (Nat.le_of_not_le hindex)
    simp only [if_neg hindex, htail, ok_bind, untilZero?_eq, untilZero?_extract]
    cases (Bytes.untilZero? h.data index).bind String.fromUTF8? <;> rfl

/-! ### Blobs -/

/-- The blob at `index`, without its length. -/
def blobAt (h : BlobHeap) (index : Nat) : Checked ByteArray :=
  if h.data.size ≤ index then
    throw (.failure .outOfBounds)
  else do
    let tail ← sliceFrom h.data index
    let blob : Parse ByteArray := do
      let length ← Parser.compressedUint tail
      Parser.readBytes tail length
    blob.startingAt Parser.start

/-- Four bytes are enough to read a compressed integer, and the others are left. -/
theorem uint_take (bytes : List UInt8) :
    Compressed.uint bytes =
      match Compressed.uint (bytes.take 4) with
      | .ok n rest => .ok n (rest ++ bytes.drop 4)
      | .error e rest => .error e (rest ++ bytes.drop 4) := by
  rcases bytes with _ | ⟨b0, _ | ⟨b1, _ | ⟨b2, _ | ⟨b3, tail⟩⟩⟩⟩
  case cons.cons.cons.cons =>
    simp only [Compressed.uint, List.take_succ_cons, List.drop_succ_cons, List.take_zero,
      List.drop_zero]
    split
    · rfl
    split
    · rfl
    split <;> rfl
  -- Fewer bytes are all taken.
  all_goals
    simp only [List.take_succ_cons, List.take_nil, List.drop_succ_cons, List.drop_nil,
      List.append_nil]
    split <;> assumption

/-- Bytes are taken from in front of what is left. -/
theorem readBytes_apply {p : Parser} {length : Nat}
    (h : p.position + length < Word.word64.bound) :
    Parser.readBytes data length p =
      match Bytes.slice data p.position length with
      | .ok bytes => .ok bytes { p with position := p.position + length }
      | .error e => .error (.failure e) p := by
  simp only [Parser.readBytes, Stateful.get_bind_apply, Word.add?_of_lt h, Bytes.slice]
  by_cases hfits : p.position + length ≤ data.size
  · have hslice := slice_of_le (Nat.le_add_right p.position length) hfits
    simp only [if_pos hfits, if_neg (Nat.not_lt.mpr hfits), hslice, Stateful.liftM_ok, pure_bind,
      Stateful.set_bind_apply]
    rfl
  · simp only [if_neg hfits, if_pos (Nat.not_le.mp hfits)]
    rfl

/-- A slice of a tail is one of the whole. -/
theorem slice_extract {start : Nat} (h : start ≤ data.size) (offset length : Nat) :
    Bytes.slice (data.extract start data.size) offset length =
      Bytes.slice data (start + offset) length := by
  rw [Bytes.slice, Bytes.slice, ByteArray.size_extract, Nat.min_self, ByteArray.extract_extract]
  by_cases hfits : start + offset + length ≤ data.size
  · rw [if_pos (by omega), if_pos hfits]
    congr 2
    omega
  · rw [if_neg (by omega), if_neg hfits]

/-- **Looking up a blob never faults**, in a heap that a machine can hold. -/
theorem blobAt_eq {h : BlobHeap} (hdata : Addressable h.data) (index : Nat) :
    blobAt h index = lift (h.get index) := by
  rw [blobAt, BlobHeap.get]
  by_cases hindex : h.data.size ≤ index
  · rw [if_pos hindex, if_pos hindex]
    rfl
  have hstart := Nat.le_of_not_le hindex
  rw [if_neg hindex, if_neg hindex, sliceFrom_of_le hstart, ok_bind, BlobHeap.extent]
  generalize htail : h.data.extract index h.data.size = tail
  have hheld : Addressable tail := htail ▸ hdata.extract _ _
  have hfield : (h.data.extract index (min (index + 4) h.data.size)).data.toList =
      tail.data.toList.take 4 := by
    rw [← htail]
    simp only [ByteArray.data_extract, Array.toList_extract, List.extract_eq_take_drop,
      List.take_take]
    congr 1
    omega
  have hsimulates : Parser.Simulates tail 0 (Parser.markCount tail.data.toList)
      (Parser.compressedUint tail) Compressed.uint := Parser.compressedUint_simulates hheld
  have hagree := hsimulates.agree (Parser.start_at tail) rfl (Nat.le_refl _)
  -- The parser sees the whole tail, the library the four bytes that a length can take.
  rw [uint_take] at hagree
  rw [hfield]
  generalize hx : Parser.compressedUint tail Parser.start = x at hagree
  cases hy : Compressed.uint (tail.data.toList.take 4) with
  | error =>
      rw [hy] at hagree
      cases hagree
      rw [Stateful.startingAt, Stateful.bind_of_eq_error hx]
      rfl
  | ok length rest =>
      rw [hy] at hagree
      cases hagree with | @ok _ q _ stands
      have hle := stands.le
      have hposition : (tail.data.toList.take 4).length - rest.length = q.position := by
        have hleft := congrArg List.length stands.drop
        simp only [List.length_drop, List.length_append, List.length_take, Array.length_toList,
          ByteArray.size_data] at hleft ⊢
        omega
      have hbound := hheld.lt_bound
      have hword : q.position + length < Word.word64.bound := by
        have hlt := Parser.lt_of_uint hy
        rw [Word.bound_word64]
        omega
      have hslice : Bytes.slice tail q.position length =
          Bytes.slice h.data (index + q.position) length := by
        rw [← htail]
        exact slice_extract hstart q.position length
      rw [Stateful.startingAt, Stateful.bind_of_eq_ok hx, readBytes_apply hword, hslice]
      simp only [hposition, ok_bind]
      cases Bytes.slice h.data (index + q.position) length <;> rfl

/-! ### Opened metadata -/

/-- The tables and heaps of opened metadata. -/
structure View where
  /-- The table stream. -/
  tables : Tables
  /-- The identifier heap. -/
  strings : StringHeap
  /-- The blob heap, if there is one. -/
  blobs : Option BlobHeap

namespace View

/-- The table stream. -/
def readTables (d : StreamDirectory) (data : ByteArray) : Checked Tables := do
  match ← stream? d data .tables with
  | some bytes => Tables.read bytes
  | none =>
    match ← stream? d data .editableTables with
    | some _ => throw (.failure .notSupported)
    | none => throw (.failure (.malformed .missingTableStream))

/-- The identifier heap. -/
def readStrings (d : StreamDirectory) (data : ByteArray) : Checked StringHeap := do
  match ← stream? d data .strings with
  | some bytes => do
    checkHeap bytes .badStringHeap
    return ⟨bytes⟩
  | none => throw (.failure (.malformed .missingStringHeap))

/-- The blob heap, if there is one. -/
def readBlobs (d : StreamDirectory) (data : ByteArray) : Checked (Option BlobHeap) := do
  match ← stream? d data .blob with
  | some bytes => do
    checkHeap bytes .badBlobHeap
    return some ⟨bytes⟩
  | none => return none

/-- Opens metadata. -/
def read (data : ByteArray) : Checked View := do
  let d ← readDirectory data
  let tables ← readTables d data
  let strings ← readStrings d data
  let blobs ← readBlobs d data
  return { tables, strings, blobs }

/-- The identifier at `index`. -/
def string (v : View) (index : Nat) : Checked String :=
  text v.strings index

/-- The blob at `index`. -/
def blob (v : View) (index : Nat) : Checked ByteArray :=
  match v.blobs with
  | some heap => blobAt heap index
  | none => throw (.failure (.malformed (.missingBlobHeap index)))

/-- What a machine keeps of opened metadata. -/
def of (m : Metadata) : View where
  tables := .of m.tables
  strings := m.strings
  blobs := m.blobs

section Reading

variable {d : StreamDirectory} (hd : Reachable d) (data : ByteArray)
include hd

theorem readTables_eq :
    readTables d data = lift ((Metadata.readTables d data).map Tables.of) := by
  rw [readTables, Metadata.readTables, stream?_eq hd, ok_bind]
  cases htables : d.stream? data .tables with
  | some bytes => exact Tables.read_eq (addressable_of_stream? hd htables)
  | none =>
      simp only [stream?_eq hd, ok_bind]
      cases d.stream? data .editableTables <;> rfl

theorem readStrings_eq : readStrings d data = lift (Metadata.readStrings d data) := by
  rw [readStrings, Metadata.readStrings, stream?_eq hd, ok_bind]
  cases d.stream? data .strings with
  | none => rfl
  | some bytes =>
      simp only [checkHeap_eq, StringHeap.ofBytes]
      split <;> rfl

theorem readBlobs_eq : readBlobs d data = lift (Metadata.readBlobs d data) := by
  rw [readBlobs, Metadata.readBlobs, stream?_eq hd, ok_bind]
  cases d.stream? data .blob with
  | none => rfl
  | some bytes =>
      simp only [checkHeap_eq, BlobHeap.ofBytes]
      split <;> rfl

end Reading

/-- **Opening metadata never faults**, whatever the bytes. -/
theorem read_eq (data : ByteArray) : read data = lift ((Metadata.read data).map of) := by
  rw [read, Metadata.read, readDirectory_eq]
  cases hdirectory : StreamDirectory.read data with
  | error => rfl
  | ok d =>
      have hd := reachable_of_read hdirectory
      simp only [lift_ok, ok_bind, readTables_eq hd, readStrings_eq hd, readBlobs_eq hd]
      rcases Metadata.readTables d data with _ | tables
      · rfl
      rcases Metadata.readStrings d data with _ | strings
      · rfl
      cases Metadata.readBlobs d data <;> rfl

end View

theorem View.string_of (m : Metadata) (index : Nat) :
    (View.of m).string index = lift (m.string index) :=
  text_eq m.strings index

/-! ### What is opened -/

/-- What is known of all metadata that are opened from `size` bytes: the tables are sound, and a
machine can hold the blob heap, which is no larger than the metadata. -/
structure Held (size : Nat) (m : Metadata) : Prop where
  tables : Sound m.tables
  blobs {h : BlobHeap} (hblobs : m.blobs = some h) : Addressable h.data ∧ h.data.size ≤ size

theorem size_of_stream? {d : StreamDirectory} {name : StreamName} {bytes : ByteArray}
    (h : d.stream? data name = some bytes) : bytes.size ≤ data.size := by
  rw [StreamDirectory.stream?] at h
  obtain ⟨header, -, h⟩ := Option.bind_eq_some_iff.mp h
  unfold Bytes.slice at h
  split at h
  · cases h
    rw [ByteArray.size_extract]
    omega
  · cases h

/-- **Metadata that are opened can be held.** -/
theorem held_of_read {m : Metadata} (h : Metadata.read data = .ok m) : Held data.size m := by
  rw [Metadata.read] at h
  obtain ⟨d, hdirectory, h⟩ := seq_eq_ok_iff.mp h
  obtain ⟨tables, htables, h⟩ := seq_eq_ok_iff.mp h
  obtain ⟨strings, -, h⟩ := seq_eq_ok_iff.mp h
  obtain ⟨blobs, hblobs, h⟩ := seq_eq_ok_iff.mp h
  cases h
  have hd := reachable_of_read hdirectory
  constructor
  · rw [Metadata.readTables] at htables
    split at htables
    · rename_i bytes hstream
      exact sound_of_read (addressable_of_stream? hd hstream) htables
    · split at htables <;> cases htables
  · rintro heap rfl
    rw [Metadata.readBlobs] at hblobs
    split at hblobs
    · rename_i bytes hstream
      unfold BlobHeap.ofBytes at hblobs
      split at hblobs
      · cases hblobs
        exact ⟨addressable_of_stream? hd hstream, size_of_stream? hstream⟩
      · cases hblobs
    · cases hblobs

namespace Held

variable {size : Nat} {m : Metadata}

/-- **Looking into the heaps never faults.** -/
theorem blob_eq (h : Held size m) (index : Nat) : (View.of m).blob index = lift (m.blob index) := by
  rw [View.blob, Metadata.blob]
  change (match m.blobs with
    | some heap => blobAt heap index
    | none => _) = _
  cases hblobs : m.blobs with
  | none => rfl
  | some heap => exact blobAt_eq (h.blobs hblobs).1 index

/-- A machine can hold every blob, and it is no larger than the metadata. -/
theorem blob_le (h : Held size m) {index : Nat} {bytes : ByteArray}
    (hblob : m.blob index = .ok bytes) : Addressable bytes ∧ bytes.size ≤ size := by
  rw [Metadata.blob] at hblob
  split at hblob
  · rename_i heap hblobs
    obtain ⟨hdata, hsize⟩ := h.blobs hblobs
    rw [BlobHeap.get] at hblob
    split at hblob
    · cases hblob
    · obtain ⟨⟨start, length⟩, -, hblob⟩ := seq_eq_ok_iff.mp hblob
      simp only [Bytes.slice] at hblob
      split at hblob
      · cases hblob
        refine ⟨hdata.extract _ _, ?_⟩
        rw [ByteArray.size_extract]
        omega
      · cases hblob
  · cases hblob

end Held

end AliasStubs.Machine
