import AliasStubs.Proofs.Metadata.Decoding

/-!
# Packed references

A reference to a row of one of several tables is packed into one number: its tag stands in the low
bits, the row above them. The number takes two or four bytes, and the row counts of the tables say
which: two as long as a reference to the last row of the longest table still fits beside the tag.
So no reference to a row that exists is ever cut, as long as it fits four bytes at all.

A tag stands for at most one table, and no two tags for the same. So there is exactly one number
for each reference, and every number that is accepted is the one of the reference that it is read
as.

## Main definitions

* `CodedKind.pack` : tag and row as one number.

## Main results

* `CodedKind.pack_lt` : how many bits a packed reference takes.
* `Layout.pack_lt_of_le` : **references to rows that exist fit their width**.
* `CodedKind.tag_unique` : no two tags stand for the same table.
* `CodedIndex.pack_read_decode` : they are read back, and nothing else is accepted.
-/

namespace AliasStubs

open Bytes

/-! ### Tag and row as one number -/

namespace CodedKind

variable {k : CodedKind} {tag row : Nat}

/-- Tag and row as one number: the tag in the low bits, the row above them. -/
def pack (k : CodedKind) (tag row : Nat) : Nat :=
  row <<< k.tagBits ||| tag

theorem tagCount_eq (k : CodedKind) : k.tagCount = 2 ^ k.tagBits :=
  Nat.one_shiftLeft _

/-- The bits of tag and row do not meet. -/
theorem pack_eq (htag : tag < k.tagCount) : k.pack tag row = row * k.tagCount + tag := by
  rw [tagCount_eq] at htag ⊢
  rw [pack, ← Nat.shiftLeft_add_eq_or_of_lt htag, Nat.shiftLeft_eq]

theorem pack_mod (htag : tag < k.tagCount) : k.pack tag row % k.tagCount = tag := by
  rw [pack_eq htag, Nat.mul_add_mod_self_right, Nat.mod_eq_of_lt htag]

/-- Every number is a tag and a row. -/
theorem eq_pack (k : CodedKind) (value : Nat) :
    value = k.pack (value % k.tagCount) (value / k.tagCount) := by
  have hpos : 0 < k.tagCount := by
    rw [tagCount_eq]
    exact Nat.two_pow_pos _
  rw [pack_eq (Nat.mod_lt _ hpos), Nat.mul_comm, Nat.div_add_mod]

/-- A row that fits beside the tag is packed into as many bits as there are for both. -/
theorem pack_lt {bits : Nat} (htag : tag < k.tagCount) (hbits : k.tagBits ≤ bits)
    (hrow : row < 2 ^ (bits - k.tagBits)) : k.pack tag row < 2 ^ bits := by
  rw [pack_eq htag]
  calc
    row * k.tagCount + tag < (row + 1) * k.tagCount := by rw [Nat.succ_mul]; omega
    _ ≤ 2 ^ (bits - k.tagBits) * k.tagCount := Nat.mul_le_mul_right _ hrow
    _ = 2 ^ bits := by rw [tagCount_eq, ← Nat.pow_add, Nat.sub_add_cancel hbits]

/-! ### The tables behind the tags -/

/-- The tag of a table is one that the tag bits can hold. -/
theorem tag_lt_tagCount {s : Option TableId} (h : k.slots[tag]? = some s) : tag < k.tagCount :=
  Nat.lt_of_lt_of_le (List.getElem?_eq_some_iff.mp h).1 k.length_slots_le

/-- The tag of a table is the first slot that holds it. -/
theorem idxOf_slots {t : TableId} (h : k.slots[tag]? = some (some t)) :
    k.slots.idxOf (some t) = tag := by
  have hall : ∀ i < k.slots.length, ∀ u ∈ k.slots[i]?.join, k.slots.idxOf (some u) = i := by
    cases k <;> decide
  exact hall tag (List.getElem?_eq_some_iff.mp h).1 t (by rw [h]; rfl)

/-- **No two tags stand for the same table.** -/
theorem tag_unique {tag' : Nat} {t : TableId} (h : k.slots[tag]? = some (some t))
    (h' : k.slots[tag']? = some (some t)) : tag = tag' :=
  (idxOf_slots h).symm.trans (idxOf_slots h')

/-- A table behind a tag is one of those that the kind can select. -/
theorem mem_tables {t : TableId} (h : k.slots[tag]? = some (some t)) : t ∈ k.tables :=
  List.mem_filterMap.mpr ⟨some t, List.mem_of_getElem? h, rfl⟩

theorem tagBits_le (k : CodedKind) : k.tagBits ≤ 5 := by
  cases k <;> decide

end CodedKind

/-! ### Widths -/

namespace Layout

variable {l : Layout} {k : CodedKind}

/-- The largest row count of some tables is no smaller than where the search starts, nor than any of
theirs. -/
theorem le_foldl_max (l : Layout) (ts : List TableId) (n : Nat) :
    n ≤ ts.foldl (fun m t => max m (l.rowCount t)) n ∧
      ∀ t ∈ ts, l.rowCount t ≤ ts.foldl (fun m t => max m (l.rowCount t)) n := by
  induction ts generalizing n with
  | nil => exact ⟨Nat.le_refl _, List.forall_mem_nil _⟩
  | cons u ts ih =>
      obtain ⟨hstart, hrest⟩ := ih (max n (l.rowCount u))
      refine ⟨Nat.le_trans (Nat.le_max_left _ _) hstart, List.forall_mem_cons.mpr ⟨?_, hrest⟩⟩
      exact Nat.le_trans (Nat.le_max_right _ _) hstart

/-- A table that a kind can select is no longer than the longest. -/
theorem rowCount_le_longest {t : TableId} (h : t ∈ k.tables) : l.rowCount t ≤ l.longest k :=
  (l.le_foldl_max k.tables 0).2 t h

/-- **A packed reference to a row that exists fits the width of its kind**, if it fits four bytes at
all. -/
theorem pack_lt_of_le {t : TableId} {tag row : Nat} (htag : k.slots[tag]? = some (some t))
    (hle : row ≤ l.rowCount t) (hrow : row < 2 ^ (32 - k.tagBits)) :
    k.pack tag row < 256 ^ l.codedWidth k := by
  have hbits := k.tagBits_le
  have hroom := CodedKind.tag_lt_tagCount htag
  by_cases hwide : 1 <<< (16 - k.tagBits) ≤ l.longest k
  · have hwidth : l.codedWidth k = 4 := by simp [codedWidth, indexWidth, hwide]
    rw [hwidth]
    exact CodedKind.pack_lt hroom (by omega) hrow
  · have hwidth : l.codedWidth k = 2 := by simp [codedWidth, indexWidth, hwide]
    have hlongest := l.rowCount_le_longest (CodedKind.mem_tables htag)
    rw [Nat.one_shiftLeft] at hwide
    have hshort : row < 2 ^ (16 - k.tagBits) := by omega
    rw [hwidth]
    exact CodedKind.pack_lt hroom (by omega) hshort

/-- A row that exists fits the width of an index into its table. -/
theorem row_lt_of_le {t : TableId} {row : UInt32} (hle : row.toNat ≤ l.rowCount t) :
    row.toNat < 256 ^ l.tableWidth t := by
  have hrow := row.toNat_lt
  by_cases hwide : 65535 < l.rowCount t
  · have hwidth : l.tableWidth t = 4 := by simp [tableWidth, indexWidth, hwide]
    rw [hwidth]
    exact hrow
  · have hwidth : l.tableWidth t = 2 := by simp [tableWidth, indexWidth, hwide]
    rw [hwidth]
    omega

/-- Five tag bits leave room for 2047 rows in two bytes. -/
example :
    (ofCounts [0, 0, 0, 0, 0, 0, 0x7FF] false false false).codedWidth .hasCustomAttribute = 2 ∧
    (ofCounts [0, 0, 0, 0, 0, 0, 0x800] false false false).codedWidth .hasCustomAttribute = 4 := by
  decide

end Layout

/-! ### Reading and accepting -/

namespace CodedIndex

variable {k : CodedKind}

/-- The number of a reference is its tag and row, packed. -/
theorem number_eq_pack {i : CodedIndex} {tag : Nat} (h : k.slots[tag]? = some (some i.table)) :
    number k i = k.pack tag i.row := by
  rw [number, CodedKind.idxOf_slots h, CodedKind.pack_eq (CodedKind.tag_lt_tagCount h)]

/-- **A number is accepted exactly as the reference that it packs.** -/
theorem decode_eq_ok_iff_pack {value : Nat} {i : CodedIndex} : decode k value = .ok i ↔
    ∃ tag, k.slots[tag]? = some (some i.table) ∧ value = k.pack tag i.row := by
  constructor
  · intro h
    rw [decode] at h
    split at h
    · rename_i hslot
      cases h
      exact ⟨_, hslot, k.eq_pack value⟩
    · cases h
  · rintro ⟨tag, hslot, rfl⟩
    rw [← number_eq_pack hslot]
    exact decode_number (CodedKind.mem_tables hslot)

/-- A tag that selects no table is refused. -/
theorem decode_pack_of_selectsNone {tag : Nat} (row : Nat) (htag : tag < k.tagCount)
    (hnone : k.SelectsNone tag) :
    decode k (k.pack tag row) = .error (.malformed (.badTag tag k)) := by
  rw [decode, CodedKind.pack_mod htag]
  split
  · rename_i t hslot
    exact absurd hslot (hnone t)
  · rfl

/-- **Coded indexes are read back in the width that the layout gives them.** A reference to a row
that exists fits the width of its kind, and wherever its bytes stand it is read, and what follows is
read behind it. Every number that is accepted packs the reference it is read as, so no two numbers
are read as the same one, and a number whose tag is reserved, or past the last table, is malformed.
A row that exists fits the width of an index into its table alone. -/
theorem pack_read_decode (l : Layout) (k : CodedKind) :
    (∀ t tag row, k.slots[tag]? = some (some t) → row ≤ l.rowCount t →
      row < 2 ^ (32 - k.tagBits) →
        k.pack tag row < 256 ^ l.codedWidth k ∧
        ∀ data offset, HoldsAt data offset (ofUint (l.codedWidth k) (k.pack tag row)) →
          read l data k offset = .ok ⟨t, row⟩ (offset + l.codedWidth k)) ∧
    (∀ value i, decode k value = .ok i ↔
      ∃ tag, k.slots[tag]? = some (some i.table) ∧ value = k.pack tag i.row) ∧
    (∀ value value' i, decode k value = .ok i → decode k value' = .ok i → value = value') ∧
    (∀ tag row, tag < k.tagCount → k.SelectsNone tag →
      decode k (k.pack tag row) = .error (.malformed (.badTag tag k))) ∧
    ∀ t (row : UInt32), row.toNat ≤ l.rowCount t → row.toNat < 256 ^ l.tableWidth t := by
  refine ⟨fun t tag row htag hle hrow => ?_, fun _ _ => decode_eq_ok_iff_pack, fun _ _ i h h' => ?_,
    fun _ row => decode_pack_of_selectsNone row, fun _ _ => Layout.row_lt_of_le⟩
  · have hlt := Layout.pack_lt_of_le htag hle hrow
    refine ⟨hlt, fun data offset hbytes => ?_⟩
    have hnumber : number k ⟨t, row⟩ = k.pack tag row := number_eq_pack htag
    rw [← hnumber] at hlt hbytes
    exact Column.read_of_holdsAt (c := .coded k) (v := ⟨t, row⟩) hbytes
      ⟨CodedKind.mem_tables htag, hlt⟩
  · obtain ⟨tag, htag, rfl⟩ := decode_eq_ok_iff_pack.mp h
    obtain ⟨tag', htag', rfl⟩ := decode_eq_ok_iff_pack.mp h'
    rw [CodedKind.tag_unique htag htag']

end CodedIndex

end AliasStubs
