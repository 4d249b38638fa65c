import AliasStubs.Proofs.Image.Wrapped
import AliasStubs.Proofs.Machine.Sections
import Mathlib.Data.List.Perm.Basic

/-!
# Where relative addresses lie in the file

The section table is searched in its order, and a section that reaches past the largest address
ends the search as much as one that holds the address does. So the order of the table matters in
general. It does not where every address is held by one section at most and no section reaches past
the largest address: the one section that holds an address is then found wherever it stands in the
table, and it keeps the distances between its addresses.

## Main definitions

* `Section.Overflows` : a section reaches past the largest address.
* `Section.Decides` : a section ends the search for an address.
* `Mappable` : sections without common addresses, of which none overflows.

## Main results

* `fileOffset_eq` : the first section that decides an address tells its offset.
* `Mappable.fileOffset_eq_ok_iff` : in a mappable table, every section does.
* `Mappable.fileOffset_perm` : the order of a mappable table does not matter.
* `Image.offsetOf_translates` : **all of this for an image, without a fault**.
-/

namespace AliasStubs

variable {s t : Section} {sections sections' : List Section} {address offset : Nat}

namespace Section

/-- A section reaches past the largest address. -/
def Overflows (s : Section) : Prop :=
  UInt32.size ≤ s.virtualAddress + s.extent

instance (s : Section) : Decidable s.Overflows :=
  inferInstanceAs (Decidable (_ ≤ _))

/-- A section ends the search for an address. -/
def Decides (s : Section) (address : Nat) : Prop :=
  s.Overflows ∨ s.contains address

instance (s : Section) (address : Nat) : Decidable (s.Decides address) :=
  inferInstanceAs (Decidable (_ ∨ _))

/-- Two sections have no address in common. -/
def Apart (s t : Section) : Prop :=
  ∀ address, ¬ (s.contains address ∧ t.contains address)

theorem Apart.symm (h : s.Apart t) : t.Apart s :=
  fun address hboth => h address hboth.symm

/-- Sections of which one ends before the other starts have no address in common. -/
theorem apart_of_le (h : s.virtualAddress + s.extent ≤ t.virtualAddress) : s.Apart t := by
  rintro address ⟨hs, ht⟩
  rw [contains_iff] at hs ht
  omega

/-- The offsets of two addresses in a section are as far apart as the addresses. -/
theorem offsetOf_sub_offsetOf {a b : Nat} (ha : s.contains a) (hb : s.contains b) :
    (s.offsetOf a : Int) - s.offsetOf b = a - b := by
  rw [contains_iff] at ha hb
  rw [offsetOf, offsetOf]
  omega

end Section

/-! ### The section that decides -/

theorem fileOffset_cons (s : Section) (rest : List Section) (address : Nat) :
    fileOffset (s :: rest) address =
      if s.Overflows then .error (.malformed (.sectionExtent s.virtualAddress s.extent))
      else if s.contains address then .ok (s.offsetOf address)
      else fileOffset rest address :=
  rfl

/-- **The first section that decides an address tells its offset.** -/
theorem fileOffset_eq (sections : List Section) (address : Nat) : fileOffset sections address =
    match sections.find? (·.Decides address) with
    | none => .error (.malformed (.unmappedAddress address))
    | some s =>
      if s.Overflows then .error (.malformed (.sectionExtent s.virtualAddress s.extent))
      else .ok (s.offsetOf address) := by
  induction sections with
  | nil => rfl
  | cons s rest ih =>
      rw [fileOffset_cons]
      by_cases hover : s.Overflows
      · have hdecides : decide (s.Decides address) = true := decide_eq_true (.inl hover)
        simp only [List.find?_cons, hdecides, if_pos hover]
      by_cases hcontains : s.contains address
      · have hdecides : decide (s.Decides address) = true := decide_eq_true (.inr hcontains)
        simp only [List.find?_cons, hdecides, if_neg hover, if_pos hcontains]
      · have hdecides : decide (s.Decides address) = false :=
          decide_eq_false (not_or.mpr ⟨hover, hcontains⟩)
        simp only [List.find?_cons, hdecides, if_neg hover, if_neg hcontains, ih]

/-! ### Tables whose order does not matter -/

/-- Sections without common addresses, of which none reaches past the largest address. -/
structure Mappable (sections : List Section) : Prop where
  apart : sections.Pairwise Section.Apart
  fits : ∀ s ∈ sections, ¬ s.Overflows

namespace Mappable

/-- The rest of a mappable table is mappable. -/
theorem tail (h : Mappable (s :: sections)) : Mappable sections :=
  ⟨h.apart.of_cons, fun t ht => h.fits t (List.mem_cons_of_mem _ ht)⟩

/-- A mappable table is so in every order. -/
theorem perm (h : Mappable sections) (hperm : sections'.Perm sections) : Mappable sections' :=
  ⟨(hperm.pairwise_iff Section.Apart.symm).mpr h.apart, fun s hs => h.fits s (hperm.mem_iff.mp hs)⟩

/-- The section that holds an address is found wherever it stands. -/
theorem fileOffset_of_mem (h : Mappable sections) (hs : s ∈ sections)
    (hcontains : s.contains address) : fileOffset sections address = .ok (s.offsetOf address) := by
  induction sections with
  | nil => cases hs
  | cons t rest ih =>
      rw [fileOffset_cons, if_neg (h.fits t (List.mem_cons_self ..))]
      rcases List.mem_cons.mp hs with rfl | hrest
      · rw [if_pos hcontains]
      · have hapart : t.Apart s := (List.pairwise_cons.mp h.apart).1 s hrest
        rw [if_neg fun ht => hapart address ⟨ht, hcontains⟩, ih h.tail hrest]

/-- An address that no section holds is not found. -/
theorem fileOffset_of_forall_not (h : Mappable sections)
    (hnone : ∀ s ∈ sections, ¬ s.contains address) :
    fileOffset sections address = .error (.malformed (.unmappedAddress address)) := by
  have hfind : sections.find? (·.Decides address) = none := by
    refine List.find?_eq_none.mpr fun s hs hdecides => ?_
    rcases of_decide_eq_true hdecides with hover | hcontains
    · exact h.fits s hs hover
    · exact hnone s hs hcontains
  rw [fileOffset_eq, hfind]

/-- **In a mappable table, every section tells the offsets of its addresses.** -/
theorem fileOffset_eq_ok_iff (h : Mappable sections) : fileOffset sections address = .ok offset ↔
    ∃ s ∈ sections, s.contains address ∧ s.offsetOf address = offset := by
  constructor
  · intro hoffset
    by_contra hnone
    have hunheld : ∀ s ∈ sections, ¬ s.contains address := fun s hs hcontains => by
      rw [h.fileOffset_of_mem hs hcontains] at hoffset
      exact hnone ⟨s, hs, hcontains, Except.ok.inj hoffset⟩
    rw [h.fileOffset_of_forall_not hunheld] at hoffset
    cases hoffset
  · rintro ⟨s, hs, hcontains, rfl⟩
    exact h.fileOffset_of_mem hs hcontains

/-- **The order of a mappable table does not matter.** -/
theorem fileOffset_perm (h : Mappable sections) (hperm : sections'.Perm sections) (address : Nat) :
    fileOffset sections' address = fileOffset sections address := by
  by_cases hheld : ∃ s ∈ sections, s.contains address
  · obtain ⟨s, hs, hcontains⟩ := hheld
    rw [h.fileOffset_of_mem hs hcontains,
      (h.perm hperm).fileOffset_of_mem (hperm.mem_iff.mpr hs) hcontains]
  · have hnone : ∀ s ∈ sections, ¬ s.contains address := fun s hs hcontains =>
      hheld ⟨s, hs, hcontains⟩
    rw [h.fileOffset_of_forall_not hnone, (h.perm hperm).fileOffset_of_forall_not fun s hs =>
      hnone s (hperm.mem_iff.mp hs)]

/-- No section of a mappable table holds an address that is too large. -/
theorem lt_of_contains (h : Mappable sections) (hs : s ∈ sections)
    (hcontains : s.contains address) : address < UInt32.size := by
  have hfits := h.fits s hs
  rw [Section.contains_iff] at hcontains
  exact Nat.lt_trans hcontains.2 (Nat.lt_of_not_le hfits)

end Mappable

/-! ### Addresses of an image -/

namespace Image

variable {i : Image}

theorem offsetOf_of_le (h : UInt32.size ≤ address) :
    i.offsetOf address = .error (.malformed (.addressTooLarge address)) :=
  if_pos h

theorem offsetOf_of_lt (h : address < UInt32.size) :
    i.offsetOf address = fileOffset i.sections address :=
  if_neg (Nat.not_le.mpr h)

/-- An address in a section is found there. -/
theorem offsetOf_of_contains (h : Mappable i.sections) (hs : s ∈ i.sections)
    (hcontains : s.contains address) : i.offsetOf address = .ok (s.offsetOf address) := by
  rw [offsetOf_of_lt (h.lt_of_contains hs hcontains), h.fileOffset_of_mem hs hcontains]

/-- What is found lies in a section. -/
theorem exists_contains_of_offsetOf (h : Mappable i.sections)
    (hoffset : i.offsetOf address = .ok offset) : ∃ s ∈ i.sections, s.contains address := by
  rw [offsetOf] at hoffset
  split at hoffset
  · cases hoffset
  · obtain ⟨s, hs, hcontains, -⟩ := h.fileOffset_eq_ok_iff.mp hoffset
    exact ⟨s, hs, hcontains⟩

/-- **Relative addresses are translated.** In an image that is opened by a reader that returns
section tables as they are stored, if its sections have no address in common and none reaches past
the largest one, an address is found exactly if some section holds it, whatever the order of the
table, and addresses of one section are found as far apart as they are. In any table, an address
that is too large is refused, and the first section that decides any other address tells its
offset. A machine computes all of this without a fault. -/
theorem offsetOf_translates {headers? : HeaderReader} (hreads : headers?.ReadsSections)
    {data : ByteArray} (h : Image.read headers? data = .ok i) :
    (Mappable i.sections →
      (∀ address, (∃ offset, i.offsetOf address = .ok offset) ↔
        ∃ s ∈ i.sections, s.contains address) ∧
      (∀ i' : Image, i'.sections.Perm i.sections →
        ∀ address, i'.offsetOf address = i.offsetOf address) ∧
      ∀ s ∈ i.sections, ∀ a b, s.contains a → s.contains b →
        ∃ x y : Nat, i.offsetOf a = .ok x ∧ i.offsetOf b = .ok y ∧ (x : Int) - y = a - b) ∧
    (∀ address, UInt32.size ≤ address →
      i.offsetOf address = .error (.malformed (.addressTooLarge address))) ∧
    (∀ address, address < UInt32.size → i.offsetOf address =
      match i.sections.find? (·.Decides address) with
      | none => .error (.malformed (.unmappedAddress address))
      | some s =>
        if s.Overflows then .error (.malformed (.sectionExtent s.virtualAddress s.extent))
        else .ok (s.offsetOf address)) ∧
    ∀ address, Machine.imageOffset i address = Machine.lift (i.offsetOf address) := by
  refine ⟨fun hmap => ⟨fun address => ⟨?_, ?_⟩, fun i' hperm address => ?_, ?_⟩,
    fun address => offsetOf_of_le, fun address haddress => ?_,
    Machine.imageOffset_eq (narrow_of_read hreads h)⟩
  · rintro ⟨offset, hoffset⟩
    exact exists_contains_of_offsetOf hmap hoffset
  · rintro ⟨s, hs, hcontains⟩
    exact ⟨_, offsetOf_of_contains hmap hs hcontains⟩
  · rw [offsetOf, offsetOf, hmap.fileOffset_perm hperm]
  · intro s hs a b ha hb
    exact ⟨_, _, offsetOf_of_contains hmap hs ha, offsetOf_of_contains hmap hs hb,
      Section.offsetOf_sub_offsetOf ha hb⟩
  · rw [offsetOf_of_lt haddress, fileOffset_eq]

/-- An image with two sections, of which the one at the greater address comes first. -/
def crossed : ByteArray :=
  let fields : List Bytes.Field :=
    [ -- The signature, the number of sections and the size of the optional header.
      .uint 2 0x00 0x5A4D, .uint 4 0x3C 0x40, .uint 4 0x40 0x4550, .uint 2 0x46 2,
      .uint 2 0x54 0xD8,
      -- The optional header with the directory of the runtime header.
      .uint 2 0x58 0x10B, .uint 4 0x7C 0x200, .uint 4 0xB4 15, .uint 4 0x128 0x2000,
      .uint 4 0x12C 0x48,
      -- The section table.
      .uint 4 0x138 0x20, .uint 4 0x13C 0x4000, .uint 4 0x140 0x10, .uint 4 0x144 0x1D0,
      .uint 4 0x160 0x60, .uint 4 0x164 0x2000, .uint 4 0x168 0x80, .uint 4 0x16C 0x180,
      -- The address and the size of the metadata.
      .uint 4 0x188 0x2048, .uint 4 0x18C 0x14]
  ⟨(fields.foldl Bytes.put (List.replicate 0x1E0 0)).toArray⟩

theorem offsetOf_translates_crossed : HeaderReader.portable.ReadsSections ∧
    ∃ i, Image.read .portable crossed = .ok i ∧
    (∃ x y : Nat, i.offsetOf 0x2048 = .ok x ∧ i.offsetOf 0x2000 = .ok y ∧ (x : Int) - y = 0x48) ∧
    (∃ offset, i.offsetOf 0x4000 = .ok offset) ∧ ¬ ∃ offset, i.offsetOf 0x4020 = .ok offset := by
  have hread : (Image.read .portable crossed).map (·.sections) =
      .ok [⟨0x20, 0x4000, 0x10, 0x1D0⟩, ⟨0x60, 0x2000, 0x80, 0x180⟩] := by decide +kernel
  obtain ⟨i, hi, hsections⟩ := map_eq_ok_iff.mp hread
  have hmap : Mappable i.sections := by
    rw [hsections]
    exact ⟨List.pairwise_pair.mpr (Section.apart_of_le (by decide)).symm, by decide⟩
  have hreads := HeaderReader.readsSections_portable
  obtain ⟨hfound, -, hdistance⟩ := (offsetOf_translates hreads hi).1 hmap
  refine ⟨hreads, i, hi, ?_, (hfound _).mpr ?_, mt (hfound _).mp ?_⟩
  · have hsecond : (⟨0x60, 0x2000, 0x80, 0x180⟩ : Section) ∈ i.sections := by
      rw [hsections]
      decide
    exact hdistance _ hsecond 0x2048 0x2000 (by decide) (by decide)
  · rw [hsections]
    decide
  · rw [hsections]
    decide

end Image

end AliasStubs
