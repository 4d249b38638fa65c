import AliasStubs.Proofs.Machine.Bytes
import AliasStubs.Proofs.Metadata.StreamDirectory

/-!
# Stream directories on a machine

The start of the metadata says of itself where its parts lie: how long the version text is, and so
where the directory starts, and where each stream lies. All of these numbers have 32 bits, and what
is added to them is small, so no offset leaves a word of 64 bits, however large the data are.

## Main results

* `Machine.readHeader_eq`, `Machine.readDirectory_eq` : **reading a stream directory never faults**.
* `Machine.stream?_eq` : nor does looking for a stream.
-/

namespace AliasStubs.Machine

open StreamDirectory (magic maxStreams versionText)

variable {data : ByteArray}

/-! ### Texts that are ended by a zero byte -/

/-- The offset of the first zero byte from `i` on. -/
def zeroFrom? (data : ByteArray) (i : Nat) : Option Nat :=
  if i < data.size then
    if Bytes.byteAt data i = 0 then some i else zeroFrom? data (i + 1)
  else
    none
  termination_by data.size - i

theorem zeroFrom?_lt {i stop : Nat} (h : zeroFrom? data i = some stop) : stop < data.size := by
  fun_induction zeroFrom? data i with
  | case1 i hlt hzero =>
      cases h
      exact hlt
  | case2 i hlt hzero ih => exact ih h
  | case3 i hge => cases h

/-- What ends with a zero byte is what lies before the first one. -/
theorem untilZero?_go_eq (start i : Nat) :
    Bytes.untilZero?.go data start i = (zeroFrom? data i).map (data.extract start) := by
  fun_induction zeroFrom? data i with
  | case1 i hlt hzero =>
      rw [Bytes.byteAt, dif_pos hlt] at hzero
      rw [Bytes.untilZero?.go, dif_pos hlt, if_pos hzero, Option.map_some]
  | case2 i hlt hzero ih =>
      rw [Bytes.byteAt, dif_pos hlt] at hzero
      rw [Bytes.untilZero?.go, dif_pos hlt, if_neg hzero, ih]
  | case3 i hge => rw [Bytes.untilZero?.go, dif_neg hge, Option.map_none]

/-- The bytes before the first zero byte, if there is one. -/
def untilZero? (data : ByteArray) : Checked (Option ByteArray) :=
  match zeroFrom? data 0 with
  | none => .ok none
  | some stop => (slice data 0 stop).map some

theorem untilZero?_eq (data : ByteArray) : untilZero? data = .ok (Bytes.untilZero? data 0) := by
  rw [untilZero?, Bytes.untilZero?, untilZero?_go_eq]
  cases h : zeroFrom? data 0 with
  | none => rfl
  | some stop =>
      have hslice := slice_of_le (Nat.zero_le stop) (Nat.le_of_lt (zeroFrom?_lt h))
      simp only [hslice]
      rfl

/-! ### Entries -/

/-- The number of bytes that a name of `length` bytes occupies with its zero byte and its
padding. -/
def paddedLength (length : Nat) : Checked Nat := do
  let ended ← Word.word64.add length 1
  let room ← Word.word64.add ended 3
  return room &&& (Word.word64.bound - 1 ^^^ 3)

/-- The number of bytes an entry occupies. -/
def headerLength (h : StreamHeader) : Checked Nat := do
  let padded ← paddedLength h.name.text.utf8ByteSize
  Word.word64.add 8 padded

/-- Reads the entry at the start of `data`. -/
def readHeader (data : ByteArray) : Checked StreamHeader := do
  if data.size < 9 then
    throw (.failure .outOfBounds)
  let field ← slice data 8 (min (8 + StreamHeader.nameLimit) data.size)
  match ← untilZero? field with
  | none => throw (.failure (.malformed .unterminatedStreamName))
  | some bytes =>
    let text := Lossy.decode bytes
    match StreamName.ofText? text with
    | none => throw (.failure (.malformed (.unknownStreamName text)))
    | some name =>
      let offset ← uintFrom data 4 0
      let size ← uintFrom data 4 4
      return { offset, size, name }

/-- Without its two low bits, a number is a multiple of four. -/
theorem and_mask_eq : ∀ n < 16, n &&& (Word.word64.bound - 1 ^^^ 3) = n / 4 * 4 := by
  decide

theorem headerLength_eq (h : StreamHeader) : headerLength h = .ok h.length := by
  have hname : h.name.text.utf8ByteSize ≤ 8 := by
    cases h.name <;> decide
  have hended : Word.word64.add h.name.text.utf8ByteSize 1 = .ok _ :=
    Word.add_word64 (by omega)
  have hroom : Word.word64.add (h.name.text.utf8ByteSize + 1) 3 = .ok _ :=
    Word.add_word64 (by omega)
  have hlength : Word.word64.add 8 ((h.name.text.utf8ByteSize + 1 + 3) / 4 * 4) = .ok h.length :=
    Word.add_word64 (by omega)
  simp only [headerLength, paddedLength, hended, hroom, ok_bind, pure_bind,
    and_mask_eq _ (show h.name.text.utf8ByteSize + 1 + 3 < 16 by omega), hlength]

/-- **Reading an entry never faults.** -/
theorem readHeader_eq (data : ByteArray) : readHeader data = lift (StreamHeader.read data) := by
  rw [readHeader, StreamHeader.read]
  by_cases hsize : data.size < 9
  · simp only [if_pos hsize]
    rfl
  · have hfield : slice data 8 (min (8 + StreamHeader.nameLimit) data.size) = .ok _ :=
      slice_of_le (by rw [StreamHeader.nameLimit]; omega) (Nat.min_le_right _ _)
    have hzero : uintFrom data 4 0 = lift (Bytes.uintAt data 4 0) :=
      uintFrom_eq (Nat.zero_le _) (by decide)
    have hfour : uintFrom data 4 4 = lift (Bytes.uintAt data 4 4) :=
      uintFrom_eq (by omega) (by decide)
    simp only [if_neg hsize, hfield, untilZero?_eq, ok_bind, hzero, hfour]
    cases Bytes.untilZero? (data.extract 8 (min (8 + StreamHeader.nameLimit) data.size)) 0 with
    | none => rfl
    | some bytes =>
        simp only
        cases StreamName.ofText? (Lossy.decode bytes) with
        | none => rfl
        | some name => simp only [lift_bind, lift_pure]

/-! ### Directories -/

/-- Checks that a stream lies inside the `size` bytes of the metadata. -/
def checkExtent (size : Nat) (h : StreamHeader) : Checked Unit :=
  match Word.word32.add? h.offset h.size with
  | none => throw (.failure (.malformed (.streamExtent h.offset h.size)))
  | some stop => if stop ≤ size then return () else throw (.failure .outOfBounds)

/-- Reads `count` entries of the directory, the first of which starts at `offset`. -/
def readHeaders (data : ByteArray) : (count offset : Nat) → Checked (List StreamHeader)
  | 0, _ => return []
  | count + 1, offset => do
    if data.size ≤ offset then
      throw (.failure .outOfBounds)
    let tail ← sliceFrom data offset
    let h ← readHeader tail
    checkExtent data.size h
    let next ← Word.word64.add offset (← headerLength h)
    let hs ← readHeaders data count next
    return h :: hs

/-- Reads the start of the metadata. -/
def readDirectory (data : ByteArray) : Checked StreamDirectory := do
  if data.size < 20 then
    throw (.failure .outOfBounds)
  let found ← uintFrom data 4 0
  if found ≠ magic then
    throw (.failure (.malformed (.badMagic found)))
  let versionSize ← (uint data 4).startingAt 12
  let versionEnd ← Word.word64.add versionSize 16
  let directory ← Word.word64.add versionEnd 4
  if data.size < directory then
    throw (.failure .outOfBounds)
  let field ← slice data 16 versionEnd
  let version? ← untilZero? field
  let countOffset ← Word.word64.add versionEnd 2
  let count ← (uint data 2).startingAt countOffset
  if count = 0 ∨ maxStreams < count then
    throw (.failure (.malformed (.streamCount count)))
  let headers ← readHeaders data count directory
  let majorVersion ← uintFrom data 2 4
  let minorVersion ← uintFrom data 2 6
  return { majorVersion, minorVersion, version := Lossy.decode (version?.getD field), headers }

/-- The bytes of the first stream of a name. -/
def stream? (d : StreamDirectory) (data : ByteArray) (name : StreamName) :
    Checked (Option ByteArray) :=
  match d.headers.find? (·.name == name) with
  | none => return none
  | some h => do
    let stop ← Word.word64.add h.offset h.size
    if h.offset ≤ stop ∧ stop ≤ data.size then
      return some (data.extract h.offset stop)
    else
      return none

theorem checkExtent_eq (size : Nat) (h : StreamHeader) :
    checkExtent size h = lift (StreamDirectory.checkExtent size h) := by
  unfold checkExtent StreamDirectory.checkExtent
  by_cases hword : UInt32.size ≤ h.offset + h.size
  · rw [if_pos hword, Word.add?_of_le hword]
    rfl
  · rw [if_neg hword, Word.add?_of_lt (Nat.not_le.mp hword)]
    by_cases hfits : h.offset + h.size ≤ size
    · simp only [if_pos hfits, if_neg (Nat.not_lt.mpr hfits)]
      rfl
    · simp only [if_neg hfits, if_pos (Nat.not_le.mp hfits)]
      rfl

/-- An entry has at most twenty bytes. -/
theorem length_le (h : StreamHeader) : h.length ≤ 20 := by
  have hname : h.name.text.utf8ByteSize ≤ 8 := by
    cases h.name <;> decide
  rw [StreamHeader.length]
  omega

/-- **Reading the entries never faults**, where the offset behind them fits into a word. -/
theorem readHeaders_eq {count offset : Nat} (h : offset + 20 * count < Word.word64.bound) :
    readHeaders data count offset = lift (StreamDirectory.readHeaders data count offset) := by
  induction count generalizing offset with
  | zero => rfl
  | succ count ih =>
      rw [readHeaders, StreamDirectory.readHeaders]
      by_cases hsize : data.size ≤ offset
      · simp only [if_pos hsize]
        rfl
      · simp only [if_neg hsize, sliceFrom_of_le (Nat.le_of_not_le hsize), ok_bind,
          readHeader_eq, checkExtent_eq, headerLength_eq]
        refine bind_eq_lift_bind rfl fun header _ => bind_eq_lift_bind rfl fun _ _ => ?_
        have hlength := length_le header
        have hnext : Word.word64.add offset header.length = .ok (offset + header.length) :=
          Word.add_of_lt (by omega)
        rw [hnext, ok_bind]
        exact bind_eq_lift_bind (ih (by omega)) fun _ _ => rfl

/-- **Reading a stream directory never faults.** -/
theorem readDirectory_eq (data : ByteArray) :
    readDirectory data = lift (StreamDirectory.read data) := by
  rw [readDirectory, StreamDirectory.read]
  by_cases hsize : data.size < 20
  · simp only [if_pos hsize]
    rfl
  · simp only [if_neg hsize]
    refine bind_eq_lift_bind (uintFrom_eq (by omega) (by decide)) fun found _ => ?_
    by_cases hmagic : found ≠ magic
    · simp only [if_pos hmagic]
      rfl
    simp only [if_neg hmagic]
    refine bind_eq_lift_bind (uint_startingAt (by decide)) fun versionSize hversion => ?_
    have hbound := lt_of_uintAt (Nat.le_refl _) hversion
    rw [UInt32.size] at hbound
    have hend : Word.word64.add versionSize 16 = .ok (16 + versionSize) := by
      rw [Nat.add_comm]
      exact Word.add_word64 (by omega)
    have hdirectory : Word.word64.add (16 + versionSize) 4 = .ok (16 + versionSize + 4) :=
      Word.add_word64 (by omega)
    simp only [hend, hdirectory, ok_bind]
    by_cases hfits : data.size < 16 + versionSize + 4
    · simp only [if_pos hfits]
      rfl
    have hfield : slice data 16 (16 + versionSize) = .ok (data.extract 16 (16 + versionSize)) :=
      slice_of_le (Nat.le_add_right _ _) (by omega)
    have hcount : Word.word64.add (16 + versionSize) 2 = .ok (16 + versionSize + 2) :=
      Word.add_word64 (by omega)
    simp only [if_neg hfits, hfield, untilZero?_eq, hcount, ok_bind]
    refine bind_eq_lift_bind (uint_startingAt (by rw [Word.bound_word64]; omega)) fun count _ => ?_
    by_cases hrange : count = 0 ∨ maxStreams < count
    · simp only [if_pos hrange]
      rfl
    simp only [if_neg hrange]
    have hstreams : count ≤ 8 := Nat.not_lt.mp (not_or.mp hrange).2
    refine bind_eq_lift_bind (readHeaders_eq (by rw [Word.bound_word64]; omega)) fun headers _ => ?_
    refine bind_eq_lift_bind (uintFrom_eq (by omega) (by decide)) fun majorVersion _ => ?_
    exact bind_eq_lift_bind (uintFrom_eq (by omega) (by decide)) fun minorVersion _ => rfl

/-! ### Streams -/

/-- Whether every stream ends before an offset of more than 32 bits. -/
def Reachable (d : StreamDirectory) : Prop :=
  ∀ h ∈ d.headers, h.offset + h.size < UInt32.size

theorem lt_of_checkExtent {size : Nat} {h : StreamHeader}
    (hcheck : StreamDirectory.checkExtent size h = .ok ()) : h.offset + h.size < UInt32.size := by
  unfold StreamDirectory.checkExtent at hcheck
  split at hcheck
  · cases hcheck
  · rename_i hlt
    exact Nat.not_le.mp hlt

/-- The streams of a directory that is read are within reach. -/
theorem reachable_of_read {d : StreamDirectory} (h : StreamDirectory.read data = .ok d) :
    Reachable d := fun header hheader =>
  lt_of_checkExtent (StreamDirectory.checkExtent_of_read h header hheader)

/-- **Looking for a stream within reach never faults.** -/
theorem stream?_eq {d : StreamDirectory} (hd : Reachable d) (data : ByteArray)
    (name : StreamName) : stream? d data name = .ok (d.stream? data name) := by
  rw [stream?, StreamDirectory.stream?]
  cases hfind : d.headers.find? (·.name == name) with
  | none => rfl
  | some header =>
      have hlt := hd header (List.mem_of_find?_eq_some hfind)
      rw [UInt32.size] at hlt
      have hstop : Word.word64.add header.offset header.size = .ok (header.offset + header.size) :=
        Word.add_word64 (by omega)
      simp only [hstop, ok_bind, Bytes.slice, Nat.le_add_right, true_and,
        Option.bind_eq_bind, Option.bind_some]
      by_cases hfits : header.offset + header.size ≤ data.size
      · simp only [if_pos hfits]
        rfl
      · simp only [if_neg hfits]
        rfl

/-- A machine can hold every stream within reach. -/
theorem addressable_of_stream? {d : StreamDirectory} (hd : Reachable d) {name : StreamName}
    {bytes : ByteArray} (h : d.stream? data name = some bytes) : Addressable bytes := by
  rw [StreamDirectory.stream?] at h
  obtain ⟨header, hfind, h⟩ := Option.bind_eq_some_iff.mp h
  have hlt := hd header (List.mem_of_find?_eq_some hfind)
  have hslice : Bytes.slice data header.offset header.size = .ok bytes := by
    cases hs : Bytes.slice data header.offset header.size with
    | error e =>
        rw [hs] at h
        cases h
    | ok bytes' =>
        rw [hs] at h
        cases h
        rfl
  have hsize := Bytes.size_of_slice hslice
  rw [UInt32.size] at hlt
  unfold Addressable
  omega

end AliasStubs.Machine
