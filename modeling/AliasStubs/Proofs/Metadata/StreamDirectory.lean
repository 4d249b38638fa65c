import AliasStubs.Metadata.StreamDirectory
import AliasStubs.Proofs.Bytes
import AliasStubs.Proofs.Sequences

/-!
# Stream directories that are written are read back

The start of the metadata is written from its `Contents`: two version numbers, the version text and
one entry for each stream. How long an entry is follows from its name alone, so the entries stand
one behind the other wherever the text ends. The streams themselves may lie anywhere: all that is
asked is that each stands at the offset that its entry records. They may come in any order, with
anything between and behind them, and may share bytes.

Several streams can have one name. The first one in the directory is the one that is found.

In the other direction, whatever is accepted has been checked stream by stream, so every stream that
is listed can be taken out of the data.

## Main definitions

* `StreamDirectory.Entry`, `StreamDirectory.Contents` : what an entry and the start of the metadata
  are written from.
* `Contents.StoredIn` : the start of the metadata and all streams stand where they should.
* `StreamDirectory.ReadFrom` : all that is checked and read where a directory is read.
* `StreamDirectory.named?` : the stream of a name that is given as a text.

## Main results

* `StreamDirectory.read_eq_ok_iff` : a directory is read exactly if this succeeds.
* `StreamDirectory.readHeaders_of_holdsAt` : every entry is found behind the one before.
* `StreamDirectory.read_of_storedIn` : what is written is read back.
* `StreamDirectory.stored_read_and_listed_found` : **that, and what is listed is found**.
-/

namespace AliasStubs

open Bytes

/-! ### Names -/

namespace StreamName

/-- The bytes of a name. -/
def bytes (n : StreamName) : List UInt8 :=
  n.text.toUTF8.data.toList

/-- A name is read from its bytes. -/
theorem decode_bytes (n : StreamName) : Lossy.decode ⟨n.bytes.toArray⟩ = n.text := by
  cases n <;> decide

theorem length_bytes (n : StreamName) : n.bytes.length = n.text.utf8ByteSize := by
  cases n <;> decide

theorem zero_not_mem_bytes (n : StreamName) : 0 ∉ n.bytes := by
  cases n <;> decide

theorem length_bytes_lt (n : StreamName) : n.bytes.length < StreamHeader.nameLimit := by
  cases n <;> decide

/-- A text names a stream exactly if it is the text of the name. -/
theorem ofText?_eq_some_iff {s : String} {n : StreamName} : ofText? s = some n ↔ n.text = s := by
  constructor
  · intro h
    simpa using List.find?_some h
  · rintro rfl
    exact ofText?_text n

end StreamName

namespace StreamDirectory

/-! ### Entries -/

/-- What an entry of the directory is written from. -/
structure Entry where
  /-- The name of the stream. -/
  name : StreamName
  /-- The bytes that fill the entry up behind the zero byte of the name. -/
  padding : List UInt8
  /-- Where the stream starts. -/
  offset : Nat
  /-- The stream. -/
  contents : List UInt8
  padding_length : padding.length = (name.bytes.length + 1 + 3) / 4 * 4 - (name.bytes.length + 1)

namespace Entry

/-- What is read of an entry. -/
def header (e : Entry) : StreamHeader where
  offset := e.offset
  size := e.contents.length
  name := e.name

/-- The bytes of an entry. -/
def bytes (e : Entry) : List UInt8 :=
  ofUint 4 e.offset ++ (ofUint 4 e.contents.length ++ (e.name.bytes ++ ([0] ++ e.padding)))

/-- An entry takes the length that is told from its name. -/
theorem length_bytes (e : Entry) : e.bytes.length = e.header.length := by
  simp only [bytes, List.length_append, length_ofUint, List.length_singleton, e.padding_length,
    StreamHeader.length, header, ← StreamName.length_bytes]
  omega

end Entry

variable {data : ByteArray} {offset : Nat}

/-- An entry is read back. -/
theorem header_of_holdsAt {e : Entry} (h : HoldsAt data 0 e.bytes) (hoffset : e.offset < 256 ^ 4)
    (hsize : e.contents.length < 256 ^ 4) : StreamHeader.read data = .ok e.header := by
  have hrest := h.right
  have hname := hrest.right
  rw [length_ofUint] at hrest
  rw [length_ofUint, length_ofUint, ← List.append_assoc] at hname
  have hlarge := hname.left.le_size
  have hlimit := e.name.length_bytes_lt
  rw [List.length_append, List.length_singleton] at hlarge
  -- The field of the name starts behind the two numbers and takes in the zero byte.
  have hfield : HoldsAt (data.extract 8 (min (8 + StreamHeader.nameLimit) data.size)) 0
      (e.name.bytes ++ [0]) :=
    hname.left.extract 8 _ (by omega) (by rw [List.length_append, List.length_singleton]; omega)
  simp only [StreamHeader.read, if_neg (show ¬ data.size < 9 by omega),
    untilZero?_of_holdsAt hfield e.name.zero_not_mem_bytes, e.name.decode_bytes,
    StreamName.ofText?_text, uintAt_of_holdsAt h.left hoffset, uintAt_of_holdsAt hrest.left hsize]
  rfl

/-- A stream that stands in data of less than `2 ^ 32` bytes passes the check of its extent. -/
theorem checkExtent_of_holdsAt {e : Entry} (h : HoldsAt data e.offset e.contents)
    (hdata : data.size < UInt32.size) : checkExtent data.size e.header = .ok () := by
  have hle := h.le_size
  rw [checkExtent, Entry.header, if_neg (by dsimp only; omega), if_neg (by dsimp only; omega)]

/-- **Every entry is found behind the one before.** The lengths of the entries before it add up to
its offset. -/
theorem readHeaders_of_holdsAt {entries : List Entry}
    (h : HoldsAt data offset (entries.flatMap (·.bytes)))
    (hstreams : ∀ e ∈ entries, HoldsAt data e.offset e.contents) (hdata : data.size < UInt32.size) :
    readHeaders data entries.length offset = .ok (entries.map (·.header)) := by
  induction entries generalizing offset with
  | nil => rfl
  | cons e entries ih =>
      obtain ⟨hstream, hstreams⟩ := List.forall_mem_cons.mp hstreams
      rw [List.flatMap_cons] at h
      have hle := h.left.le_size
      have hpos : 0 < e.bytes.length := by
        rw [Entry.bytes, List.length_append, length_ofUint]
        omega
      have hentry : HoldsAt (data.extract offset data.size) 0 e.bytes := by
        have hextract := h.left.extract offset data.size (Nat.le_refl _) hle
        rwa [Nat.sub_self] at hextract
      have hbounds := hstream.le_size
      rw [UInt32.size] at hdata
      have hheader := header_of_holdsAt hentry (by omega) (by omega)
      have hextent := checkExtent_of_holdsAt hstream hdata
      have htail := ih h.right hstreams
      rw [e.length_bytes] at htail
      rw [List.length_cons, readHeaders, if_neg (by omega)]
      simp only [hheader, hextent, htail, ok_bind]
      rfl

/-! ### Directories -/

/-- What the start of the metadata is written from. -/
structure Contents where
  /-- The major version of the metadata's format. -/
  majorVersion : UInt16
  /-- The minor version of the metadata's format. -/
  minorVersion : UInt16
  /-- Four bytes without a meaning. -/
  reserved : List UInt8
  /-- The field of the version text, with or without a zero byte. -/
  versionField : List UInt8
  /-- Two more bytes without a meaning. -/
  flags : List UInt8
  /-- The entries of the directory. -/
  entries : List Entry
  reserved_length : reserved.length = 4
  flags_length : flags.length = 2
  entries_ne_nil : entries ≠ []
  entries_length : entries.length ≤ maxStreams

namespace Contents

/-- The bytes of the start of the metadata. -/
def bytes (c : Contents) : List UInt8 :=
  ofUint 4 magic ++ (ofUint 2 c.majorVersion.toNat ++ (ofUint 2 c.minorVersion.toNat ++
    (c.reserved ++ (ofUint 4 c.versionField.length ++ (c.versionField ++
      (c.flags ++ (ofUint 2 c.entries.length ++ c.entries.flatMap (·.bytes))))))))

/-- What is read of it. -/
def directory (c : Contents) : StreamDirectory where
  majorVersion := c.majorVersion.toNat
  minorVersion := c.minorVersion.toNat
  version := Lossy.decode ⟨(c.versionField.takeWhile (· ≠ 0)).toArray⟩
  headers := c.entries.map (·.header)

/-- The start of the metadata stands at the start of the data, and each stream at the offset that
its entry records. -/
structure StoredIn (c : Contents) (data : ByteArray) : Prop where
  start : HoldsAt data 0 c.bytes
  streams : ∀ e ∈ c.entries, HoldsAt data e.offset e.contents

end Contents

/-- The fields of the start of the metadata stand at their offsets. -/
theorem holdsAt_fields {c : Contents} (h : HoldsAt data 0 c.bytes) :
    HoldsAt data 0 (ofUint 4 magic) ∧ HoldsAt data 4 (ofUint 2 c.majorVersion.toNat) ∧
      HoldsAt data 6 (ofUint 2 c.minorVersion.toNat) ∧
      HoldsAt data 12 (ofUint 4 c.versionField.length) ∧ HoldsAt data 16 c.versionField ∧
      HoldsAt data (16 + c.versionField.length + 2) (ofUint 2 c.entries.length) ∧
      HoldsAt data (16 + c.versionField.length + 4) (c.entries.flatMap (·.bytes)) := by
  have hmajor := h.right
  have hminor := hmajor.right
  have hreserved := hminor.right
  have hversionSize := hreserved.right
  rw [c.reserved_length] at hversionSize
  have hversion := hversionSize.right
  rw [length_ofUint] at hversion
  have hcount := hversion.right.right
  rw [c.flags_length] at hcount
  have hentries := hcount.right
  rw [length_ofUint] at hentries
  exact ⟨h.left, hmajor.left, hminor.left, hversionSize.left, hversion.left, hcount.left, hentries⟩

/-- All that is checked and read where a directory is read. -/
structure ReadFrom (d : StreamDirectory) (data : ByteArray) (versionSize count : Nat) : Prop where
  large : 20 ≤ data.size
  magic_eq : uintAt data 4 0 = .ok magic
  versionSize_eq : uintAt data 4 12 = .ok versionSize
  version_le : 16 + versionSize + 4 ≤ data.size
  version_eq : versionText (data.extract 16 (16 + versionSize)) = d.version
  count_eq : uintAt data 2 (16 + versionSize + 2) = .ok count
  range : ¬ (count = 0 ∨ maxStreams < count)
  headers_eq : readHeaders data count (16 + versionSize + 4) = .ok d.headers
  majorVersion_eq : uintAt data 2 4 = .ok d.majorVersion
  minorVersion_eq : uintAt data 2 6 = .ok d.minorVersion

/-- **A directory is read exactly if all of this holds.** -/
theorem read_eq_ok_iff {d : StreamDirectory} :
    read data = .ok d ↔ ∃ versionSize count, d.ReadFrom data versionSize count := by
  constructor
  · intro h
    rw [read] at h
    split at h
    · cases h
    rename_i hlarge
    obtain ⟨found, hfound, h⟩ := seq_eq_ok_iff.mp h
    split at h
    · cases h
    rename_i hmagic
    obtain ⟨versionSize, hversion, h⟩ := seq_eq_ok_iff.mp h
    simp only at h
    split at h
    · cases h
    rename_i hend
    obtain ⟨count, hcount, h⟩ := seq_eq_ok_iff.mp h
    split at h
    · cases h
    rename_i hrange
    obtain ⟨headers, hheaders, h⟩ := seq_eq_ok_iff.mp h
    obtain ⟨major, hmajor, h⟩ := seq_eq_ok_iff.mp h
    obtain ⟨minor, hminor, h⟩ := seq_eq_ok_iff.mp h
    cases h
    rw [not_not.mp hmagic] at hfound
    exact ⟨versionSize, count, Nat.le_of_not_lt hlarge, hfound, hversion, Nat.le_of_not_lt hend,
      rfl, hcount, hrange, hheaders, hmajor, hminor⟩
  · rintro ⟨versionSize, count, h⟩
    simp only [read, if_neg (Nat.not_lt_of_le h.large), h.magic_eq, h.versionSize_eq,
      if_neg (Nat.not_lt_of_le h.version_le), h.version_eq, h.count_eq, if_neg h.range, h.headers_eq,
      h.majorVersion_eq, h.minorVersion_eq, ok_bind, ne_eq, not_true_eq_false, if_false]
    rfl

/-- **What is written is read back.** -/
theorem read_of_storedIn {c : Contents} (h : c.StoredIn data) (hdata : data.size < UInt32.size) :
    read data = .ok c.directory := by
  obtain ⟨hmagic, hmajor, hminor, hversionSize, hversion, hcount, hentries⟩ :=
    holdsAt_fields h.start
  have hheaders := readHeaders_of_holdsAt hentries h.streams hdata
  have hend := hentries.le_size
  have hstreams := c.entries_length
  have hpos := List.length_pos_iff.mpr c.entries_ne_nil
  rw [UInt32.size] at hdata
  rw [maxStreams] at hstreams
  refine read_eq_ok_iff.mpr ⟨c.versionField.length, c.entries.length, ?_⟩
  exact {
    large := by omega
    magic_eq := uintAt_of_holdsAt hmagic (by decide)
    versionSize_eq := uintAt_of_holdsAt hversionSize (by omega)
    version_le := by omega
    version_eq := by
      rw [versionText, hversion.extract_eq, untilZero?_getD_eq]
      rfl
    count_eq := uintAt_of_holdsAt hcount (by omega)
    range := by
      rw [maxStreams]
      omega
    headers_eq := hheaders
    majorVersion_eq := uintAt_of_holdsAt hmajor c.majorVersion.toNat_lt
    minorVersion_eq := uintAt_of_holdsAt hminor c.minorVersion.toNat_lt }

/-! ### Streams -/

/-- The stream of a name that is given as a text. -/
def named? (d : StreamDirectory) (data : ByteArray) (name : String) : Option ByteArray :=
  (StreamName.ofText? name).bind (d.stream? data)

/-- What is found under a name is the first entry of that name. -/
theorem find?_headers_eq (entries : List Entry) (n : StreamName) :
    (entries.map (·.header)).find? (·.name == n) =
      (entries.find? (·.name.text = n.text)).map (·.header) := by
  have hsame : ((·.name == n) ∘ Entry.header : Entry → Bool) =
      fun e => decide (e.name.text = n.text) := by
    funext e
    rw [Function.comp_apply, Bool.eq_iff_iff, beq_iff_eq, decide_eq_true_iff,
      ← StreamName.ofText?_eq_some_iff, StreamName.ofText?_text, Option.some.injEq]
    exact eq_comm
  rw [List.find?_map, hsame]

/-- **The first stream of a name is the one that is found.** -/
theorem named?_directory {c : Contents} (h : c.StoredIn data) (name : String) :
    c.directory.named? data name =
      (c.entries.find? (·.name.text = name)).map fun e => ⟨e.contents.toArray⟩ := by
  rw [named?]
  cases hname : StreamName.ofText? name with
  | none =>
      have hnone : c.entries.find? (·.name.text = name) = none := by
        refine List.find?_eq_none.mpr fun e _ htext => ?_
        rw [← of_decide_eq_true htext, StreamName.ofText?_text] at hname
        cases hname
      rw [hnone, Option.bind_none, Option.map_none]
  | some n =>
      obtain rfl := StreamName.ofText?_eq_some_iff.mp hname
      rw [Option.bind_some, stream?, Contents.directory, find?_headers_eq]
      cases hfind : c.entries.find? (·.name.text = n.text) with
      | none => rfl
      | some e =>
          have hslice := slice_of_holdsAt (h.streams e (List.mem_of_find?_eq_some hfind))
          change (slice data e.offset e.contents.length).toOption = _
          rw [hslice]
          rfl

/-- The stream that is looked up by its name is the first one of that name. -/
theorem stream?_directory {c : Contents} (h : c.StoredIn data) (n : StreamName) :
    c.directory.stream? data n =
      (c.entries.find? (·.name.text = n.text)).map fun e => ⟨e.contents.toArray⟩ := by
  have hnamed := named?_directory h n.text
  rwa [named?, StreamName.ofText?_text] at hnamed

/-! ### What is accepted -/

/-- Every entry that is read has passed the check of its extent. -/
theorem checkExtent_of_readHeaders {count : Nat} {hs : List StreamHeader}
    (h : readHeaders data count offset = .ok hs) :
    ∀ header ∈ hs, checkExtent data.size header = .ok () := by
  induction count generalizing offset hs with
  | zero =>
      cases h
      simp
  | succ count ih =>
      rw [readHeaders] at h
      split at h
      · cases h
      · obtain ⟨header, -, h⟩ := seq_eq_ok_iff.mp h
        obtain ⟨⟨⟩, hcheck, h⟩ := seq_eq_ok_iff.mp h
        obtain ⟨rest, hrest, h⟩ := seq_eq_ok_iff.mp h
        cases h
        exact List.forall_mem_cons.mpr ⟨hcheck, ih hrest⟩

/-- **Every stream of a directory that is accepted has passed the check of its extent.** -/
theorem checkExtent_of_read {d : StreamDirectory} (h : read data = .ok d) :
    ∀ header ∈ d.headers, checkExtent data.size header = .ok () := by
  obtain ⟨_, _, h⟩ := read_eq_ok_iff.mp h
  exact checkExtent_of_readHeaders h.headers_eq

/-- A stream that has passed the check lies inside the data. -/
theorem le_of_checkExtent {size : Nat} {h : StreamHeader} (hcheck : checkExtent size h = .ok ()) :
    h.offset + h.size ≤ size := by
  unfold checkExtent at hcheck
  split at hcheck
  · cases hcheck
  · split at hcheck
    · cases hcheck
    · rename_i hle
      exact Nat.not_lt.mp hle

/-- **What is listed is found**: the stream of the first entry of its name, in full. -/
theorem stream?_of_mem {d : StreamDirectory} (h : read data = .ok d) {listed : StreamHeader}
    (hlisted : listed ∈ d.headers) :
    ∃ first, d.headers.find? (·.name == listed.name) = some first ∧
      first.offset + first.size ≤ data.size ∧
      d.stream? data listed.name =
        some (data.extract first.offset (first.offset + first.size)) := by
  have hfound : (d.headers.find? (·.name == listed.name)).isSome :=
    List.find?_isSome.mpr ⟨listed, hlisted, beq_self_eq_true _⟩
  obtain ⟨first, hfirst⟩ := Option.isSome_iff_exists.mp hfound
  have hle := le_of_checkExtent (checkExtent_of_read h first (List.mem_of_find?_eq_some hfirst))
  refine ⟨first, hfirst, hle, ?_⟩
  rw [stream?, hfirst]
  change (slice data first.offset first.size).toOption = _
  rw [slice, if_pos hle]
  rfl

/-- **What is written is read back, and what is listed is found.** Whatever lies between and behind
the parts, the entries are read in order, and a name finds the stream of its first entry. And every
stream that an accepted directory lists is found, in full. -/
theorem stored_read_and_listed_found (data : ByteArray) :
    (∀ c : Contents, c.StoredIn data → data.size < UInt32.size →
      ∃ d, read data = .ok d ∧ d.majorVersion = c.majorVersion.toNat ∧
        d.minorVersion = c.minorVersion.toNat ∧
        d.version = Lossy.decode ⟨(c.versionField.takeWhile (· ≠ 0)).toArray⟩ ∧
        d.headers = c.entries.map (·.header) ∧
        ∀ name : String, d.named? data name =
          (c.entries.find? (·.name.text = name)).map fun e => ⟨e.contents.toArray⟩) ∧
      ∀ d, read data = .ok d → ∀ listed ∈ d.headers,
        ∃ first, d.headers.find? (·.name == listed.name) = some first ∧
          first.offset + first.size ≤ data.size ∧
          ∃ stream, d.named? data listed.name.text = some stream ∧
            stream = data.extract first.offset (first.offset + first.size) ∧
            stream.size = first.size := by
  constructor
  · intro c hstored hdata
    exact ⟨c.directory, read_of_storedIn hstored hdata, rfl, rfl, rfl, rfl,
      named?_directory hstored⟩
  · intro d hread listed hlisted
    obtain ⟨first, hfirst, hle, hstream⟩ := stream?_of_mem hread hlisted
    refine ⟨first, hfirst, hle, _, ?_, rfl, ?_⟩
    · rw [named?, StreamName.ofText?_text]
      exact hstream
    · rw [ByteArray.size_extract]
      omega

/-- Three streams, two of which have the same name: the first one lies behind the second one, with a
byte between them, and the last one is empty. Nothing ends the version text. -/
def Contents.sample : Contents where
  majorVersion := 1
  minorVersion := 513
  reserved := [7, 7, 7, 7]
  versionField := [118, 52]
  flags := [0, 1]
  entries :=
    [⟨.blob, [1, 2], 70, [5, 6], by decide⟩, ⟨.blob, [0, 0], 66, [7, 8, 9], by decide⟩,
      ⟨.tables, [0], 3, [], by decide⟩]
  reserved_length := rfl
  flags_length := rfl
  entries_ne_nil := by decide
  entries_length := by decide

/-- The first stream of the name is the one that is found, and it is found in full. -/
theorem stored_read_and_listed_found_sample :
    ∃ data d, Contents.sample.StoredIn data ∧ read data = .ok d ∧ d.version = "v4" ∧
      d.headers = [⟨70, 2, .blob⟩, ⟨66, 3, .blob⟩, ⟨3, 0, .tables⟩] ∧
      d.named? data "#Blob" = some ⟨#[5, 6]⟩ ∧ d.named? data "#~" = some ⟨#[]⟩ ∧
      d.named? data "#US" = none ∧
      ∃ stream, d.named? data "#Blob" = some stream ∧ stream.size = 2 := by
  have hstored : Contents.sample.StoredIn
      ⟨(Contents.sample.bytes ++ [7, 8, 9, 0, 5, 6, 255]).toArray⟩ := by
    refine ⟨holdsAt_zero _ _, ?_⟩
    simp only [Contents.sample, List.forall_mem_cons]
    refine ⟨⟨Contents.sample.bytes ++ [7, 8, 9, 0], [255], rfl, by decide⟩,
      ⟨Contents.sample.bytes, [0, 5, 6, 255], rfl, by decide⟩,
      ⟨Contents.sample.bytes.take 3, Contents.sample.bytes.drop 3 ++ [7, 8, 9, 0, 5, 6, 255],
        rfl, by decide⟩, by simp⟩
  obtain ⟨hwritten, hlisted⟩ := stored_read_and_listed_found
    ⟨(Contents.sample.bytes ++ [7, 8, 9, 0, 5, 6, 255]).toArray⟩
  obtain ⟨d, hread, -, -, hversion, hheaders, hnamed⟩ :=
    hwritten Contents.sample hstored (by decide)
  have hfound := hlisted d hread ⟨66, 3, .blob⟩ (by rw [hheaders]; decide)
  obtain ⟨first, hfirst, -, stream, hstream, -, hsize⟩ := hfound
  have heq : first = ⟨70, 2, .blob⟩ := by
    rw [hheaders] at hfirst
    exact (Option.some.inj hfirst).symm
  refine ⟨_, d, hstored, hread, ?_, hheaders, hnamed _, hnamed _, hnamed _, stream, hstream, ?_⟩
  · rw [hversion]
    decide
  · rw [hsize, heq]

end StreamDirectory

end AliasStubs
