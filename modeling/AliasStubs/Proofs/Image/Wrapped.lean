import AliasStubs.Assembly.Basic
import AliasStubs.Image.Portable
import AliasStubs.Proofs.Assembly.Ownership
import AliasStubs.Proofs.Bytes
import AliasStubs.Proofs.Metadata.StreamDirectory
import AliasStubs.Proofs.Metadata.TableStream
import AliasStubs.Proofs.Sequences

/-!
# Metadata wrapped into an image

The least image around metadata has the headers, one section, and in the section the runtime header
with the metadata right behind it. It is written field by field into zeros, at ascending offsets, so
that every field stands there in the end.

Opening the image goes back all the way to the metadata: through the directory of the runtime
header, two relative addresses and the sizes of the section, which are computed from the size of the
metadata. Where a reader accepts the image and returns the headers that are stored in it, **it is
the same assembly as the bare metadata**, for metadata of every size that a runtime header allows.

## Main definitions

* `Bytes.Field` : bytes with their offset; `Bytes.put` overwrites what stands there.
* `Image.wrap` : the image around metadata, `Image.wrapFields` all that is written into it.

## Main results

* `Bytes.holdsAt_foldl_put` : fields that are written in ascending order stand where they belong.
* `Image.storedOptional?_wrap`, `Image.storedSections_wrap` : the headers are stored as they are
  written.
* `Image.metadata_ofWrapped` : the metadata are found again.
* `Assembly.ofImage_wrap` : **an image is the same assembly as the metadata in it**.
-/

namespace AliasStubs

/-! ### Writing at offsets -/

namespace Bytes

/-- A field: bytes with the offset at which they are written. -/
structure Field where
  /-- The offset of the first byte. -/
  offset : Nat
  /-- The bytes. -/
  bytes : List UInt8
  deriving DecidableEq, Repr

/-- A number of `width` bytes as a field. -/
def Field.uint (width offset n : Nat) : Field :=
  ⟨offset, ofUint width n⟩

/-- The offset behind the last byte. -/
def Field.stop (f : Field) : Nat :=
  f.offset + f.bytes.length

/-- A field ends before another one starts. -/
def Field.Before (f g : Field) : Prop :=
  f.stop ≤ g.offset

instance : IsTrans Field Field.Before where
  trans _ _ _ hfg hgh := Nat.le_trans (Nat.le_trans hfg (Nat.le_add_right _ _)) hgh

/-- Overwrites the bytes at the offset of a field, all of which must exist. -/
def put (image : List UInt8) (f : Field) : List UInt8 :=
  image.take f.offset ++ (f.bytes ++ image.drop f.stop)

variable {image : List UInt8} {f g : Field}

theorem length_put (h : f.stop ≤ image.length) : (put image f).length = image.length := by
  rw [Field.stop] at h
  rw [put, List.length_append, List.length_append, List.length_take, List.length_drop, Field.stop]
  omega

theorem holdsAt_put (h : f.stop ≤ image.length) :
    HoldsAt ⟨(put image f).toArray⟩ f.offset f.bytes := by
  rw [Field.stop] at h
  refine ⟨image.take f.offset, image.drop f.stop, by rw [List.toList_toArray, put], ?_⟩
  rw [List.length_take]
  omega

/-- What stands before a field is kept. -/
theorem holdsAt_put_of_before (hholds : HoldsAt ⟨image.toArray⟩ f.offset f.bytes)
    (h : f.Before g) : HoldsAt ⟨(put image g).toArray⟩ f.offset f.bytes := by
  obtain ⟨front, back, himage, hfront⟩ := hholds
  rw [List.toList_toArray] at himage
  rw [Field.Before, Field.stop] at h
  have htake : image.take g.offset = front ++ (f.bytes ++ back.take (g.offset - f.stop)) := by
    rw [himage, List.take_append, List.take_append, List.take_of_length_le (by omega),
      List.take_of_length_le (by omega), hfront, Nat.sub_sub, Field.stop]
  refine ⟨front, back.take (g.offset - f.stop) ++ (g.bytes ++ image.drop g.stop), ?_, hfront⟩
  rw [List.toList_toArray, put, htake, List.append_assoc, List.append_assoc]

variable {fields : List Field}

theorem length_foldl_put (h : ∀ f ∈ fields, f.stop ≤ image.length) :
    (fields.foldl put image).length = image.length := by
  induction fields generalizing image with
  | nil => rfl
  | cons g fields ih =>
      obtain ⟨hg, hfields⟩ := List.forall_mem_cons.mp h
      have hlength := length_put hg
      rw [List.foldl_cons, ih (hlength ▸ hfields), hlength]

/-- A field is kept when more fields are written behind it. -/
theorem holdsAt_foldl_put_of_before (hholds : HoldsAt ⟨image.toArray⟩ f.offset f.bytes)
    (h : ∀ g ∈ fields, f.Before g) :
    HoldsAt ⟨(fields.foldl put image).toArray⟩ f.offset f.bytes := by
  induction fields generalizing image with
  | nil => exact hholds
  | cons g fields ih =>
      obtain ⟨hg, hfields⟩ := List.forall_mem_cons.mp h
      exact ih (holdsAt_put_of_before hholds hg) hfields

/-- **Fields that are written in ascending order stand where they belong.** -/
theorem holdsAt_foldl_put (horder : fields.Pairwise Field.Before)
    (hfits : ∀ f ∈ fields, f.stop ≤ image.length) :
    ∀ f ∈ fields, HoldsAt ⟨(fields.foldl put image).toArray⟩ f.offset f.bytes := by
  -- The first field is written now and kept by all that follow, as they are behind it.
  induction fields generalizing image with
  | nil => exact fun _ h => nomatch h
  | cons g fields ih =>
      obtain ⟨hbefore, horder⟩ := List.pairwise_cons.mp horder
      obtain ⟨hg, hfields⟩ := List.forall_mem_cons.mp hfits
      rw [List.foldl_cons]
      refine List.forall_mem_cons.mpr ⟨holdsAt_foldl_put_of_before (holdsAt_put hg) hbefore, ?_⟩
      exact ih horder (length_put hg ▸ hfields)

end Bytes

/-- A size that is rounded up is not less. -/
theorem le_alignUp (n : Nat) {alignment : Nat} (h : 0 < alignment) : n ≤ alignUp n alignment := by
  have hlt : n + alignment - 1 < (n + alignment - 1) / alignment * alignment + alignment :=
    Nat.lt_div_mul_add h
  rw [alignUp]
  omega

/-! ### The image -/

namespace Image

/-- The relative address of the section of a wrapping image. -/
def wrapAddress : Nat := 0x2000

/-- The offset in the file of this section. -/
def wrapOffset : Nat := 0x200

/-- The size of the section: the runtime header and the metadata. -/
def wrapSize (m : ByteArray) : Nat :=
  RuntimeHeader.size + m.size

/-- The size of the section in the file. -/
def wrapRawSize (m : ByteArray) : Nat :=
  alignUp (wrapSize m) 0x200

/-- All that is written in front of the metadata. -/
def wrapFrontFields (m : ByteArray) : List Bytes.Field :=
  [ -- The header that points at the signature, both with their letters `MZ` and `PE`.
    .uint 2 0x00 0x5A4D, .uint 4 0x3C 0x80, .uint 4 0x80 0x4550,
    -- The file header.
    .uint 2 0x84 0x14C, .uint 2 0x86 1, .uint 2 0x94 0xE0, .uint 2 0x96 0x2102,
    -- The optional header.
    .uint 2 0x98 0x10B, .uint 2 (0x98 + 2) 8, .uint 4 (0x98 + 4) (wrapRawSize m),
    .uint 4 (0x98 + 20) wrapAddress, .uint 4 (0x98 + 28) 0x400000, .uint 4 (0x98 + 32) 0x2000,
    .uint 4 (0x98 + 36) 0x200, .uint 2 (0x98 + 40) 4, .uint 2 (0x98 + 48) 4,
    .uint 4 (0x98 + 56) (wrapAddress + 0x2000), .uint 4 (0x98 + 60) wrapOffset,
    .uint 2 (0x98 + 68) 3, .uint 2 (0x98 + 70) 0x8540, .uint 4 (0x98 + 72) 0x100000,
    .uint 4 (0x98 + 76) 0x1000, .uint 4 (0x98 + 80) 0x100000, .uint 4 (0x98 + 84) 0x1000,
    .uint 4 (0x98 + 92) 16,
    -- The directory of the runtime header.
    .uint 4 0x168 wrapAddress, .uint 4 0x16C RuntimeHeader.size,
    -- The section table, with the name `.text`.
    .uint 8 0x178 0x747865742E, .uint 4 (0x178 + 8) (wrapSize m), .uint 4 (0x178 + 12) wrapAddress,
    .uint 4 (0x178 + 16) (wrapRawSize m), .uint 4 (0x178 + 20) wrapOffset,
    .uint 4 (0x178 + 36) 0x60000020,
    -- The runtime header.
    .uint 4 wrapOffset RuntimeHeader.size, .uint 2 (wrapOffset + 4) 2, .uint 2 (wrapOffset + 6) 5,
    .uint 4 (wrapOffset + 8) (wrapAddress + RuntimeHeader.size), .uint 4 (wrapOffset + 12) m.size,
    .uint 4 (wrapOffset + 16) 1]

/-- All that is written into the image around metadata. -/
def wrapFields (m : ByteArray) : List Bytes.Field :=
  wrapFrontFields m ++ [⟨wrapOffset + RuntimeHeader.size, m.data.toList⟩]

/-- The **image around metadata**. -/
def wrap (m : ByteArray) : ByteArray :=
  ⟨((wrapFields m).foldl Bytes.put (List.replicate (wrapOffset + wrapRawSize m) 0)).toArray⟩

section Wrapped

variable {m : ByteArray}

/-! #### What stands in the image -/

theorem wrapSize_le_wrapRawSize (m : ByteArray) : wrapSize m ≤ wrapRawSize m :=
  le_alignUp _ (by decide)

theorem wrapRawSize_lt (m : ByteArray) : wrapRawSize m < wrapSize m + 0x200 := by
  rw [wrapRawSize, alignUp]
  omega

theorem pairwise_wrapFields (m : ByteArray) :
    (wrapFields m).Pairwise Bytes.Field.Before := by
  rw [← List.isChain_iff_pairwise]
  simp [wrapFields, wrapFrontFields, Bytes.Field.Before, Bytes.Field.stop, Bytes.Field.uint,
    wrapOffset, RuntimeHeader.size]

/-- Every field lies in the image: each one stands before the metadata, which end in the section. -/
theorem stop_le_of_mem_wrapFields {f : Bytes.Field} (h : f ∈ wrapFields m) :
    f.stop ≤ wrapOffset + wrapRawSize m := by
  have hsize := wrapSize_le_wrapRawSize m
  have horder := pairwise_wrapFields m
  rw [wrapSize] at hsize
  rw [wrapFields, List.pairwise_append] at horder
  rcases List.mem_append.mp h with hfront | hmetadata
  · have hbefore : f.stop ≤ wrapOffset + RuntimeHeader.size :=
      horder.2.2 f hfront _ (List.mem_singleton_self _)
    omega
  · obtain rfl := List.mem_singleton.mp hmetadata
    change wrapOffset + RuntimeHeader.size + m.size ≤ _
    omega

theorem size_wrap (m : ByteArray) : (wrap m).size = wrapOffset + wrapRawSize m := by
  refine (Bytes.length_foldl_put fun f hf => ?_).trans List.length_replicate
  rw [List.length_replicate]
  exact stop_le_of_mem_wrapFields hf

/-- **Every field stands where it was written.** -/
theorem holdsAt_wrap {f : Bytes.Field} (h : f ∈ wrapFields m) :
    Bytes.HoldsAt (wrap m) f.offset f.bytes := by
  refine Bytes.holdsAt_foldl_put (pairwise_wrapFields m) (fun g hg => ?_) f h
  rw [List.length_replicate]
  exact stop_le_of_mem_wrapFields hg

theorem holdsAt_uint_wrap {width offset n : Nat}
    (h : .uint width offset n ∈ wrapFrontFields m) :
    Bytes.HoldsAt (wrap m) offset (Bytes.ofUint width n) :=
  holdsAt_wrap (List.mem_append_left _ h)

theorem holdsAt_metadata_wrap :
    Bytes.HoldsAt (wrap m) (wrapOffset + RuntimeHeader.size) m.data.toList :=
  holdsAt_wrap (List.mem_append_right _ (List.mem_singleton_self _))

theorem littleEndian_wrap {width offset n : Nat} (h : .uint width offset n ∈ wrapFrontFields m)
    (hn : n < 256 ^ width) : Bytes.littleEndian (wrap m) width offset = n :=
  Bytes.littleEndian_of_holdsAt (holdsAt_uint_wrap h) hn

/-! #### The headers are stored -/

/-- The section of the image. -/
def wrapSection (m : ByteArray) : Section where
  virtualSize := wrapSize m
  virtualAddress := wrapAddress
  rawSize := wrapRawSize m
  rawPointer := wrapOffset

/-- Where the image says that its runtime header lies. -/
def wrapDirectory : Directory where
  address := wrapAddress
  size := RuntimeHeader.size

open ImageHeaders

theorem signatureOffset_wrap (m : ByteArray) : signatureOffset (wrap m) = 0x80 :=
  littleEndian_wrap (by simp [wrapFrontFields]) (by decide)

theorem optionalOffset_wrap (m : ByteArray) : optionalOffset (wrap m) = 0x98 := by
  rw [optionalOffset, signatureOffset_wrap]

theorem optionalSize_wrap (m : ByteArray) : optionalSize (wrap m) = 0xE0 := by
  rw [optionalSize, signatureOffset_wrap]
  exact littleEndian_wrap (by simp [wrapFrontFields]) (by decide)

theorem directoriesOffset_wrap (m : ByteArray) : directoriesOffset (wrap m) = 0x98 + 96 := by
  have hmagic : Bytes.littleEndian (wrap m) 2 0x98 = 0x10B :=
    littleEndian_wrap (by simp [wrapFrontFields]) (by decide)
  rw [directoriesOffset, optionalMagic, optionalOffset_wrap, hmagic, if_neg (by decide)]

/-- **The optional header is stored as it is written.** -/
theorem storedOptional?_wrap (m : ByteArray) :
    storedOptional? (wrap m) = some ⟨some wrapDirectory⟩ := by
  have hcount : directoryCount (wrap m) = 16 := by
    rw [directoryCount, directoriesOffset_wrap]
    exact littleEndian_wrap (by simp [wrapFrontFields]) (by decide)
  have haddress : Bytes.littleEndian (wrap m) 4 0x168 = wrapAddress :=
    littleEndian_wrap (by simp [wrapFrontFields]) (by decide)
  have hsize : Bytes.littleEndian (wrap m) 4 0x16C = RuntimeHeader.size :=
    littleEndian_wrap (by simp [wrapFrontFields]) (by decide)
  have hdirectory : Directory.storedAt? (wrap m) (0x98 + 96 + 8 * runtimeIndex) =
      some wrapDirectory := by
    simp only [Directory.storedAt?, runtimeIndex, Nat.reduceMul, Nat.reduceAdd, haddress, hsize]
    rfl
  rw [storedOptional?, optionalSize_wrap, if_neg (by decide), hcount, if_pos (by decide),
    directoriesOffset_wrap, hdirectory]

/-- **The section table is stored as it is written.** -/
theorem storedSections_wrap (hmax : m.size ≤ RuntimeHeader.maxMetadataSize) :
    storedSections (wrap m) = [wrapSection m] := by
  have hraw := wrapRawSize_lt m
  have hsize : wrapSize m = 72 + m.size := rfl
  rw [RuntimeHeader.maxMetadataSize] at hmax
  have hcount : sectionCount (wrap m) = 1 := by
    rw [sectionCount, signatureOffset_wrap]
    exact littleEndian_wrap (by simp [wrapFrontFields]) (by decide)
  have hvirtualSize : Bytes.littleEndian (wrap m) 4 (0x178 + 8) = wrapSize m :=
    littleEndian_wrap (by simp [wrapFrontFields]) (by omega)
  have hvirtualAddress : Bytes.littleEndian (wrap m) 4 (0x178 + 12) = wrapAddress :=
    littleEndian_wrap (by simp [wrapFrontFields]) (by decide)
  have hrawSize : Bytes.littleEndian (wrap m) 4 (0x178 + 16) = wrapRawSize m :=
    littleEndian_wrap (by simp [wrapFrontFields]) (by omega)
  have hrawPointer : Bytes.littleEndian (wrap m) 4 (0x178 + 20) = wrapOffset :=
    littleEndian_wrap (by simp [wrapFrontFields]) (by decide)
  have hsection : Section.storedAt (wrap m) 0x178 = wrapSection m := by
    rw [Section.storedAt, hvirtualSize, hvirtualAddress, hrawSize, hrawPointer, wrapSection]
  rw [storedSections, tableOffset, optionalOffset_wrap, optionalSize_wrap, hcount]
  exact congrArg ([·]) hsection

/-! #### The metadata are found -/

/-- The image, opened. -/
def ofWrapped (m : ByteArray) : Image where
  data := wrap m
  sections := [wrapSection m]
  runtime := wrapDirectory

/-- Every byte of the section is found where it stands in the file. -/
theorem offsetOf_ofWrapped (hmax : m.size ≤ RuntimeHeader.maxMetadataSize) {i : Nat}
    (h : i < wrapSize m) : (ofWrapped m).offsetOf (wrapAddress + i) = .ok (wrapOffset + i) := by
  have hraw := wrapRawSize_lt m
  have hsize : wrapSize m = 72 + m.size := rfl
  have hstart : (wrapSection m).virtualAddress = 0x2000 := rfl
  have hextent : (wrapSection m).extent = wrapRawSize m :=
    Nat.max_eq_right (wrapSize_le_wrapRawSize m)
  have hlimit : UInt32.size = 0x100000000 := rfl
  have hoffset : (wrapSection m).offsetOf (wrapAddress + i) = wrapOffset + i :=
    (congrArg (· + wrapOffset) (Nat.add_sub_cancel_left ..)).trans (Nat.add_comm ..)
  rw [RuntimeHeader.maxMetadataSize] at hmax
  have hcontains : (wrapSection m).contains (wrapAddress + i) = true := by
    have hle := wrapSize_le_wrapRawSize m
    rw [Section.contains, hextent, hstart, wrapAddress, decide_eq_true_eq]
    omega
  have hfits : ¬ UInt32.size ≤ (wrapSection m).virtualAddress + (wrapSection m).extent := by
    rw [hextent, hstart]
    omega
  have hsections : (ofWrapped m).sections = [wrapSection m] := rfl
  have haddress : ¬ UInt32.size ≤ wrapAddress + i := by
    rw [wrapAddress]
    omega
  rw [offsetOf, if_neg haddress, hsections, fileOffset, if_neg hfits, if_pos hcontains, hoffset]

/-- A part of the section is the same part of the file. -/
theorem bytesAt_ofWrapped (hmax : m.size ≤ RuntimeHeader.maxMetadataSize) {i n : Nat}
    (hn : 0 < n) (h : i + n ≤ wrapSize m) : (ofWrapped m).bytesAt (wrapAddress + i) n =
      .ok ((wrap m).extract (wrapOffset + i) (wrapOffset + i + n)) := by
  have hle := wrapSize_le_wrapRawSize m
  have hroom : wrapOffset + i + n ≤ (wrap m).size := by
    rw [size_wrap]
    omega
  rw [bytesAt, offsetOf_ofWrapped hmax (by omega), ok_bind, ofWrapped, Bytes.slice, if_pos hroom]

theorem uintAt_extract_wrap {width offset n : Nat}
    (h : .uint width (wrapOffset + offset) n ∈ wrapFrontFields m) (hn : n < 256 ^ width)
    (hinside : offset + width ≤ RuntimeHeader.size) :
    Bytes.uintAt ((wrap m).extract wrapOffset (wrapOffset + RuntimeHeader.size)) width offset =
      .ok n := by
  have hpart := (holdsAt_uint_wrap h).extract wrapOffset (wrapOffset + RuntimeHeader.size)
    (Nat.le_add_right _ _) (by rw [Bytes.length_ofUint]; omega)
  rw [Nat.add_sub_cancel_left] at hpart
  exact Bytes.uintAt_of_holdsAt hpart hn

/-- The runtime header is read as it is written. -/
theorem read_runtimeHeader (hpos : 0 < m.size) (hmax : m.size ≤ RuntimeHeader.maxMetadataSize) :
    RuntimeHeader.read ((wrap m).extract wrapOffset (wrapOffset + RuntimeHeader.size)) =
      .ok ⟨2, 5, wrapAddress + RuntimeHeader.size, m.size, 1⟩ := by
  have hle : RuntimeHeader.size + m.size ≤ wrapRawSize m := wrapSize_le_wrapRawSize m
  have hlength : ((wrap m).extract wrapOffset (wrapOffset + RuntimeHeader.size)).size =
      RuntimeHeader.size := by
    rw [ByteArray.size_extract, size_wrap]
    omega
  have hword : m.size < 256 ^ 4 := Nat.lt_of_le_of_lt hmax (by decide)
  generalize hpart : (wrap m).extract wrapOffset (wrapOffset + RuntimeHeader.size) = part at *
  have hsize : Bytes.uintAt part 4 0 = .ok RuntimeHeader.size :=
    hpart ▸ uintAt_extract_wrap (by simp [wrapFrontFields]) (by decide) (by decide)
  have hmajor : Bytes.uintAt part 2 4 = .ok 2 :=
    hpart ▸ uintAt_extract_wrap (by simp [wrapFrontFields]) (by decide) (by decide)
  have hminor : Bytes.uintAt part 2 6 = .ok 5 :=
    hpart ▸ uintAt_extract_wrap (by simp [wrapFrontFields]) (by decide) (by decide)
  have haddress : Bytes.uintAt part 4 8 = .ok (wrapAddress + RuntimeHeader.size) :=
    hpart ▸ uintAt_extract_wrap (by simp [wrapFrontFields]) (by decide) (by decide)
  have hmetadataSize : Bytes.uintAt part 4 12 = .ok m.size :=
    hpart ▸ uintAt_extract_wrap (by simp [wrapFrontFields]) hword (by decide)
  have hflags : Bytes.uintAt part 4 16 = .ok 1 :=
    hpart ▸ uintAt_extract_wrap (by simp [wrapFrontFields]) (by decide) (by decide)
  rw [RuntimeHeader.read, hlength, if_neg (Nat.lt_irrefl _), hsize, ok_bind, if_neg (by simp),
    hmajor, ok_bind, hminor, ok_bind, haddress, ok_bind, if_neg (by decide), hmetadataSize, ok_bind,
    if_neg (Nat.ne_of_gt hpos), if_neg (Nat.not_lt_of_le hmax), hflags]
  rfl

/-- **The metadata are found again.** -/
theorem metadata_ofWrapped (hpos : 0 < m.size) (hmax : m.size ≤ RuntimeHeader.maxMetadataSize) :
    (ofWrapped m).metadata = .ok m := by
  have hheader : (ofWrapped m).runtimeHeader = .ok wrapDirectory := rfl
  have hroom : 0 + RuntimeHeader.size ≤ wrapSize m := by
    rw [wrapSize]
    omega
  have hdirectory : (ofWrapped m).bytesAt wrapDirectory.address wrapDirectory.size =
      .ok ((wrap m).extract wrapOffset (wrapOffset + RuntimeHeader.size)) :=
    bytesAt_ofWrapped hmax (by decide) hroom
  have hmetadata : (ofWrapped m).bytesAt (wrapAddress + RuntimeHeader.size) m.size =
      .ok ((wrap m).extract (wrapOffset + RuntimeHeader.size)
        (wrapOffset + RuntimeHeader.size + m.size)) :=
    bytesAt_ofWrapped hmax hpos (Nat.le_refl _)
  rw [Image.metadata, hheader, ok_bind, hdirectory, ok_bind, read_runtimeHeader hpos hmax, ok_bind,
    hmetadata]
  exact congrArg Except.ok holdsAt_metadata_wrap.extract_eq

/-- The image is opened by every reader that accepts it and returns the headers in it. -/
theorem read_wrap {headers? : HeaderReader} (hsections : headers?.ReadsSections)
    (hoptional : headers?.ReadsOptional) (haccepts : headers?.Accepts (wrap m))
    (hmax : m.size ≤ RuntimeHeader.maxMetadataSize) :
    Image.read headers? (wrap m) = .ok (ofWrapped m) := by
  have hnonempty : (wrap m).size ≠ 0 := by
    rw [size_wrap, wrapOffset]
    omega
  obtain ⟨⟨optional?, sections⟩, hheaders⟩ := haccepts
  obtain rfl : optional? = some ⟨some wrapDirectory⟩ :=
    (hoptional _ _ hheaders).trans (storedOptional?_wrap m)
  obtain rfl : sections = [wrapSection m] :=
    (hsections _ _ hheaders).trans (storedSections_wrap hmax)
  exact read_eq_ok_iff.mpr ⟨hnonempty, hheaders, rfl⟩

end Wrapped

end Image

/-! ### Sample -/

/-- The tables of the sample as a stream. -/
def sampleStream : TableStream.Contents where
  reserved := [0, 0, 0, 2]
  majorVersion := 2
  minorVersion := 0
  heapFlags := 0
  padding := 1
  valid := 0x1446
  sorted := (sample strayAttribute).tables.sorted
  rowCount := sampleLayout.rowCount
  extra := []
  body t := (((sample strayAttribute).tables.bytes? t).map (·.data.toList)).getD []
  reserved_length := rfl
  valid_ne_zero := by decide
  valid_lt := by decide
  sorted_lt := by decide
  rowCount_lt t := by cases t <;> decide
  rowCount_absent t := by cases t <;> decide
  extra_length := rfl
  body_length t := by cases t <;> rfl

/-- The identifiers of the sample. -/
def sampleStrings : List UInt8 :=
  (sample strayAttribute).strings.data.data.toList

/-- The signatures of the sample. -/
def sampleBlobs : List UInt8 :=
  [0, 3, 0, 0, 1]

/-- The start of the sample. -/
def sampleDirectory : StreamDirectory.Contents where
  majorVersion := 1
  minorVersion := 1
  reserved := [0, 0, 0, 3]
  versionField := [118, 52, 0, 0]
  flags := [0, 2]
  entries :=
    [⟨.tables, [2], 72, sampleStream.bytes, rfl⟩, ⟨.strings, [0, 0, 1], 230, sampleStrings, rfl⟩,
      ⟨.blob, [0, 3], 258, sampleBlobs, rfl⟩]
  reserved_length := rfl
  flags_length := rfl
  entries_ne_nil := List.cons_ne_nil _ _
  entries_length := by decide

/-- The bytes of the sample: its streams stand behind its start. -/
def sampleBytes : ByteArray :=
  ⟨(sampleDirectory.bytes ++ (sampleStream.bytes ++ (sampleStrings ++ sampleBlobs))).toArray⟩

theorem length_sampleDirectory : sampleDirectory.bytes.length = 72 := by
  decide +kernel

theorem length_sampleStream : sampleStream.bytes.length = 158 := by
  decide +kernel

theorem length_sampleStrings : sampleStrings.length = 28 := by
  decide +kernel

theorem size_sampleBytes : sampleBytes.size = 263 := by
  change (sampleDirectory.bytes ++
    (sampleStream.bytes ++ (sampleStrings ++ sampleBlobs))).length = _
  rw [List.length_append, List.length_append, List.length_append, length_sampleDirectory,
    length_sampleStream, length_sampleStrings]
  rfl

theorem storedIn_sampleBytes : sampleDirectory.StoredIn sampleBytes := by
  have hwhole := Bytes.holdsAt_zero
    (sampleDirectory.bytes ++ (sampleStream.bytes ++ (sampleStrings ++ sampleBlobs))) []
  rw [List.append_nil] at hwhole
  have hstreams := hwhole.right
  rw [length_sampleDirectory] at hstreams
  have hheaps := hstreams.right
  rw [length_sampleStream] at hheaps
  have hblobs := hheaps.right
  rw [length_sampleStrings] at hblobs
  refine ⟨hwhole.left, ?_⟩
  simp only [sampleDirectory, List.forall_mem_cons]
  exact ⟨hstreams.left, hheaps.left, hblobs, by simp⟩

/-- The sample is opened from its bytes. -/
theorem read_sampleBytes : Metadata.read sampleBytes = .ok (sample strayAttribute) := by
  have hstream := StreamDirectory.stream?_directory storedIn_sampleBytes
  have hdirectory := StreamDirectory.read_of_storedIn storedIn_sampleBytes
    (by rw [size_sampleBytes]; decide)
  have htables : Metadata.readTables sampleDirectory.directory sampleBytes =
      .ok (sample strayAttribute).tables := by
    have hwhole := Bytes.holdsAt_zero sampleStream.bytes []
    rw [List.append_nil] at hwhole
    rw [Metadata.readTables, hstream]
    exact TableStream.read_of_holdsAt hwhole
  have hstrings : Metadata.readStrings sampleDirectory.directory sampleBytes =
      .ok (sample strayAttribute).strings := by
    rw [Metadata.readStrings, hstream]
    rfl
  have hblobs : Metadata.readBlobs sampleDirectory.directory sampleBytes =
      .ok (sample strayAttribute).blobs := by
    rw [Metadata.readBlobs, hstream]
    rfl
  rw [Metadata.read, hdirectory, ok_bind, htables, ok_bind, hstrings, ok_bind, hblobs]
  rfl

/-- The image around the sample is accepted. -/
theorem accepts_wrap_sampleBytes : HeaderReader.portable.Accepts (Image.wrap sampleBytes) :=
  ⟨_, HeaderReader.portable_eq_some_iff.mpr ⟨by decide +kernel, rfl⟩⟩

/-! ### Images and bare metadata -/

namespace Assembly

variable {m : ByteArray} {headers? : HeaderReader}

/-- The assembly in a wrapping image is the one with the bare metadata. -/
theorem ofImage_eq_ofMetadata (hsections : headers?.ReadsSections)
    (hoptional : headers?.ReadsOptional) (haccepts : headers?.Accepts (Image.wrap m))
    (name : String) (hpos : 0 < m.size) (hmax : m.size ≤ RuntimeHeader.maxMetadataSize) :
    ofImage headers? name (Image.wrap m) = ofMetadata name m := by
  rw [ofImage, Image.read_wrap hsections hoptional haccepts hmax, ok_bind,
    Image.metadata_ofWrapped hpos hmax, ok_bind]

/-- **An image is the same assembly as the metadata in it**, for every reader that returns headers
as they are stored and accepts the image. -/
theorem ofImage_wrap (hsections : headers?.ReadsSections) (hoptional : headers?.ReadsOptional)
    (haccepts : headers?.Accepts (Image.wrap m)) (name : String) (hpos : 0 < m.size)
    (hmax : m.size ≤ RuntimeHeader.maxMetadataSize) :
    ofImage headers? name (Image.wrap m) = ofMetadata name m ∧
    (∃ i, Image.read headers? (Image.wrap m) = .ok i ∧ i.metadata = .ok m) ∧
    (ofImage headers? name (Image.wrap m) >>= types) = (ofMetadata name m >>= types) := by
  have hsame := ofImage_eq_ofMetadata hsections hoptional haccepts name hpos hmax
  exact ⟨hsame, ⟨Image.ofWrapped m, Image.read_wrap hsections hoptional haccepts hmax,
    Image.metadata_ofWrapped hpos hmax⟩, by rw [hsame]⟩

/-- The image around the sample tells the types of the sample. -/
theorem ofImage_wrap_sampleBytes : HeaderReader.portable.ReadsSections ∧
    HeaderReader.portable.ReadsOptional ∧
    HeaderReader.portable.Accepts (Image.wrap sampleBytes) ∧
    (0 < sampleBytes.size ∧ sampleBytes.size ≤ RuntimeHeader.maxMetadataSize) ∧
    (∃ i, Image.read .portable (Image.wrap sampleBytes) = .ok i ∧ i.metadata = .ok sampleBytes) ∧
    (ofImage .portable "A" (Image.wrap sampleBytes) >>= types) = .ok sampleDefinitions := by
  have hsections := HeaderReader.readsSections_portable
  have hoptional := HeaderReader.readsOptional_portable
  have haccepts := accepts_wrap_sampleBytes
  have hpos : 0 < sampleBytes.size := by rw [size_sampleBytes]; decide
  have hmax : sampleBytes.size ≤ RuntimeHeader.maxMetadataSize := by rw [size_sampleBytes]; decide
  obtain ⟨-, himage, htypes⟩ := ofImage_wrap hsections hoptional haccepts "A" hpos hmax
  refine ⟨hsections, hoptional, haccepts, ⟨hpos, hmax⟩, himage, htypes.trans ?_⟩
  rw [ofMetadata, read_sampleBytes]
  exact types_sample

end Assembly

end AliasStubs
