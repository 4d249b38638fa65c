import AliasStubs.Image.Opened
import AliasStubs.Proofs.Machine.Word

/-!
# Relative addresses on a machine

The numbers of a section are words of 32 bits. A machine asks where a section ends in such a word,
and a section that would end behind the largest one is refused. The offset in the file is computed
in a word of 64 bits without asking: an address is not below the section that holds it, and two
words of 32 bits have a sum that fits.

## Main definitions

* `Section.Narrow` : the numbers of a section are words of 32 bits.
* `Machine.fileOffset`, `Machine.imageOffset` : the offset of a relative address, operation by
  operation.

## Main results

* `Image.narrow_of_read` : the sections of every image that is opened are narrow.
* `Machine.imageOffset_eq` : **looking up an address never faults** in such an image.
-/

namespace AliasStubs

/-! ### The numbers of a section -/

/-- The numbers of a section are words of 32 bits. -/
structure Section.Narrow (s : Section) : Prop where
  virtualSize_lt : s.virtualSize < UInt32.size
  virtualAddress_lt : s.virtualAddress < UInt32.size
  rawSize_lt : s.rawSize < UInt32.size
  rawPointer_lt : s.rawPointer < UInt32.size

theorem Section.contains_iff {s : Section} {address : Nat} : s.contains address = true ↔
    s.virtualAddress ≤ address ∧ address < s.virtualAddress + s.extent :=
  decide_eq_true_iff

/-- A section is stored in words of 32 bits. -/
theorem Section.narrow_storedAt (data : ByteArray) (offset : Nat) :
    (Section.storedAt data offset).Narrow :=
  ⟨Bytes.littleEndian_lt data 4 _, Bytes.littleEndian_lt data 4 _, Bytes.littleEndian_lt data 4 _,
    Bytes.littleEndian_lt data 4 _⟩

theorem ImageHeaders.narrow_storedSections (data : ByteArray) :
    ∀ s ∈ storedSections data, s.Narrow := by
  rw [storedSections, List.forall_mem_map]
  exact fun i _ => Section.narrow_storedAt data _

namespace Image

variable {headers? : HeaderReader} {data : ByteArray} {i : Image}

/-- **The sections of an image that is opened are narrow**, if the reader returns them as they are
stored. -/
theorem narrow_of_read (hreads : headers?.ReadsSections) (h : Image.read headers? data = .ok i) :
    ∀ s ∈ i.sections, s.Narrow := by
  obtain ⟨-, hheaders, -⟩ := read_eq_ok_iff.mp h
  have hsections : i.sections = ImageHeaders.storedSections data := hreads data _ hheaders
  rw [hsections]
  exact ImageHeaders.narrow_storedSections data

end Image

/-! ### The offset of an address -/

namespace Machine

/-- The offset in the file of a relative address: the first section that holds it decides. -/
def fileOffset : (sections : List Section) → (address : Nat) → Checked Nat
  | [], address => throw (.failure (.malformed (.unmappedAddress address)))
  | s :: rest, address =>
    let extent := max s.virtualSize s.rawSize
    match Word.word32.add? s.virtualAddress extent with
    | none => throw (.failure (.malformed (.sectionExtent s.virtualAddress extent)))
    | some stop =>
      if s.virtualAddress ≤ address ∧ address < stop then do
        Word.word64.add (← sub address s.virtualAddress) s.rawPointer
      else
        fileOffset rest address

/-- The offset in the file of a relative address, which has to be a word of 32 bits. -/
def imageOffset (i : Image) (address : Nat) : Checked Nat :=
  if Word.word32.bound ≤ address then
    throw (.failure (.malformed (.addressTooLarge address)))
  else
    fileOffset i.sections address

variable {sections : List Section} {address : Nat}

theorem fileOffset_eq (hnarrow : ∀ s ∈ sections, s.Narrow) (haddress : address < UInt32.size) :
    fileOffset sections address = lift (AliasStubs.fileOffset sections address) := by
  have hword : UInt32.size = Word.word32.bound := rfl
  induction sections with
  | nil => rfl
  | cons s rest ih =>
      obtain ⟨hs, hrest⟩ := List.forall_mem_cons.mp hnarrow
      have hextent : max s.virtualSize s.rawSize = s.extent := rfl
      rw [fileOffset, AliasStubs.fileOffset]
      by_cases hend : Word.word32.bound ≤ s.virtualAddress + s.extent
      · simp only [hextent, Word.add?_of_le hend, hword, if_pos hend]
        rfl
      simp only [hextent, Word.add?_of_lt (Nat.lt_of_not_le hend), hword, if_neg hend, ih hrest]
      by_cases hinside : s.virtualAddress ≤ address ∧ address < s.virtualAddress + s.extent
      · have hcontains := Section.contains_iff.mpr hinside
        have hsum : address - s.virtualAddress + s.rawPointer < Word.word64.bound := by
          have hpointer := hs.rawPointer_lt
          have hwide : Word.word64.bound = 0x100000000 * 0x100000000 := rfl
          rw [hword, Word.bound_word32] at hpointer haddress
          omega
        rw [if_pos hinside, if_pos hcontains, sub_of_le hinside.1, ok_bind, Word.add_of_lt hsum]
        rfl
      · have hcontains := mt Section.contains_iff.mp hinside
        rw [if_neg hinside, if_neg hcontains]

/-- **Looking up an address never faults** in an image that has been opened. -/
theorem imageOffset_eq {i : Image} (hnarrow : ∀ s ∈ i.sections, s.Narrow) (address : Nat) :
    imageOffset i address = lift (i.offsetOf address) := by
  have hword : UInt32.size = Word.word32.bound := rfl
  rw [imageOffset, Image.offsetOf, hword]
  by_cases hlarge : Word.word32.bound ≤ address
  · rw [if_pos hlarge, if_pos hlarge]
    rfl
  · rw [if_neg hlarge, if_neg hlarge]
    exact fileOffset_eq hnarrow (Nat.lt_of_not_le hlarge)

end Machine

end AliasStubs
