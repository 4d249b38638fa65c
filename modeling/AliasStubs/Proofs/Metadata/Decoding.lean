import AliasStubs.Proofs.Metadata.Rows

/-!
# Rows whose bytes are there are decoded

How wide a row is follows from the widths of its columns, while what reading takes of the bytes is
decided column by column. The two agree: a row whose bytes are there is never cut short. Only the
tag of a coded index can still keep it from being read.

What a row says is told by its bytes alone. `Cells.decode` says what without asking whether the
bytes are there; where they are, `Cells.read` comes to the same.

## Main definitions

* `Cells.decode` : the values that stand at an offset.
* `Cells.BadTag` : the failure of columns one of which stores a tag that selects no table.

## Main results

* `Cells.atOffset_read` : columns whose bytes are there are decoded.
* `Cells.badTag_of_decode_eq_error` : only a bad tag keeps them from it.
* `Table.get_eq_map_decode` : **a row that is promised is never cut short**.
-/

namespace AliasStubs

open Bytes Reading

variable {l : Layout} {data : ByteArray}

/-! ### Columns -/

/-- A tag that selects no table. -/
def CodedKind.SelectsNone (k : CodedKind) (tag : Nat) : Prop :=
  ∀ t, k.slots[tag]? ≠ some (some t)

theorem CodedIndex.eq_of_decode_eq_error {k : CodedKind} {value : Nat} {e : Failure}
    (h : decode k value = .error e) :
    k.SelectsNone (value % k.tagCount) ∧ e = .malformed (.badTag (value % k.tagCount) k) := by
  rw [decode] at h
  split at h
  · cases h
  · rename_i hslot
    cases h
    exact ⟨hslot, rfl⟩

namespace Column

/-- The value that a column takes from a number. -/
def decode : (c : Column) → Nat → Except Failure c.Cell
  | .word16, n => .ok n
  | .word32, n => .ok n
  | .string, n => .ok n
  | .guid, n => .ok n
  | .blob, n => .ok n
  | .row _, n => .ok n
  | .coded k, n => CodedIndex.decode k n

/-- Only a coded column can refuse a number. -/
theorem eq_coded_of_decode_eq_error {c : Column} {n : Nat} {e : Failure}
    (h : c.decode n = .error e) : ∃ k, c = .coded k ∧ CodedIndex.decode k n = .error e := by
  cases c with
  | coded k => exact ⟨k, rfl, h⟩
  | word16 | word32 | string | guid | blob | row => cases h

/-- A column whose bytes are there is decoded, and what follows is read behind it. -/
theorem read_of_le {c : Column} {offset : Nat} (h : offset + l.columnWidth c ≤ data.size) :
    c.read l data offset =
      match c.decode (littleEndian data (l.columnWidth c) offset) with
      | .ok v => .ok v (offset + l.columnWidth c)
      | .error e => .error e (offset + l.columnWidth c) := by
  have hnumber : uint data (l.columnWidth c) offset =
      .ok (littleEndian data (l.columnWidth c) offset) (offset + l.columnWidth c) := if_pos h
  cases c with
  | word16 | word32 | string | guid | blob | row => exact hnumber
  | coded k =>
      change CodedIndex.read l data k offset = _
      rw [CodedIndex.read]
      change (uint data (l.columnWidth (.coded k)) >>= _) offset = _
      rw [bind_of_eq_ok hnumber, decode]
      cases CodedIndex.decode k (littleEndian data (l.columnWidth (.coded k)) offset) <;> rfl

end Column

/-! ### Rows -/

namespace Cells

/-- The values of the columns that stand at `offset`, from left to right. -/
def decode (l : Layout) (data : ByteArray) :
    (cs : List Column) → (offset : Nat) → Except Failure (Cells cs)
  | [], _ => .ok ()
  | c :: cs, offset => do
    let v ← c.decode (littleEndian data (l.columnWidth c) offset)
    let vs ← decode l data cs (offset + l.columnWidth c)
    return (v, vs)

/-- The failure of the columns at `offset` if a tag that one of them stores selects no table. -/
def BadTag (l : Layout) (data : ByteArray) (cs : List Column) (offset : Nat) (e : Failure) : Prop :=
  ∃ front k back, cs = front ++ .coded k :: back ∧
    ∃ tag, tag = littleEndian data (l.codedWidth k) (offset + l.columnsWidth front) % k.tagCount ∧
      k.SelectsNone tag ∧ e = .malformed (.badTag tag k)

/-- Columns whose bytes are there are decoded. -/
theorem atOffset_read {cs : List Column} {offset : Nat}
    (h : offset + l.columnsWidth cs ≤ data.size) :
    (Cells.read l data cs).atOffset offset = decode l data cs offset := by
  induction cs generalizing offset with
  | nil => rfl
  | cons c cs ih =>
      rw [Layout.columnsWidth_cons] at h
      have hcolumn : offset + l.columnWidth c ≤ data.size := by omega
      have hcolumns : offset + l.columnWidth c + l.columnsWidth cs ≤ data.size := by omega
      have hhead := Column.read_of_le hcolumn
      have htail := ih hcolumns
      rw [Cells.read, decode]
      cases hdecode : c.decode (littleEndian data (l.columnWidth c) offset) with
      | error e =>
          rw [hdecode] at hhead
          simp only [Reader.atOffset, bind, EStateM.bind, hhead, Except.bind]
      | ok v =>
          rw [hdecode] at hhead
          rw [Reader.atOffset, bind_of_eq_ok hhead, ok_bind, ← htail, Reader.atOffset]
          simp only [bind, EStateM.bind]
          cases Cells.read l data cs (offset + l.columnWidth c) <;> rfl

/-- Columns that are not decoded hold a bad tag. -/
theorem badTag_of_decode_eq_error {cs : List Column} {offset : Nat} {e : Failure}
    (h : decode l data cs offset = .error e) : BadTag l data cs offset e := by
  induction cs generalizing offset with
  | nil => cases h
  | cons c cs ih =>
      rw [decode] at h
      cases hdecode : c.decode (littleEndian data (l.columnWidth c) offset) with
      | error e' =>
          rw [hdecode] at h
          cases h
          obtain ⟨k, rfl, hk⟩ := Column.eq_coded_of_decode_eq_error hdecode
          obtain ⟨hnone, he⟩ := CodedIndex.eq_of_decode_eq_error hk
          exact ⟨[], k, cs, rfl, _, rfl, hnone, he⟩
      | ok v =>
          rw [hdecode, ok_bind] at h
          have hrest : decode l data cs (offset + l.columnWidth c) = .error e := by
            cases hrest : decode l data cs (offset + l.columnWidth c) with
            | error e' =>
                rw [hrest] at h
                cases h
                rfl
            | ok vs =>
                rw [hrest] at h
                cases h
          obtain ⟨front, k, back, rfl, tag, htag, hnone, he⟩ := ih hrest
          refine ⟨c :: front, k, back, rfl, tag, ?_, hnone, he⟩
          rw [Layout.columnsWidth_cons, ← Nat.add_assoc]
          exact htag

/-- What is decoded is told by the bytes of the columns alone. -/
theorem decode_extract {cs : List Column} {start stop offset : Nat} (hstop : stop ≤ data.size)
    (h : start + offset + l.columnsWidth cs ≤ stop) :
    decode l (data.extract start stop) cs offset = decode l data cs (start + offset) := by
  induction cs generalizing offset with
  | nil => rfl
  | cons c cs ih =>
      rw [Layout.columnsWidth_cons] at h
      have hcolumns : start + (offset + l.columnWidth c) + l.columnsWidth cs ≤ stop := by omega
      have htail := ih hcolumns
      rw [decode, decode, littleEndian_extract hstop (by omega), htail, Nat.add_assoc]

end Cells

/-- A row whose bytes are there is decoded. -/
theorem TableRow.atOffset_read {α : Type} [TableRow α] {rid offset : Nat}
    (h : offset + l.rowSize (TableRow.table α) ≤ data.size) :
    (TableRow.read α l data rid).atOffset offset =
      (Cells.decode l data _ offset).map (TableRow.ofCells rid) := by
  rw [← Cells.atOffset_read h, TableRow.read]
  simp only [Reader.atOffset, bind, EStateM.bind]
  cases Cells.read l data (TableRow.table α).columns offset <;> rfl

/-! ### Tables -/

namespace Table

variable {α : Type} [TableRow α] {t : Table α} {rid : Nat}

/-- Rows that are not promised are out of bounds. -/
theorem get_eq_outOfBounds (h : rid = 0 ∨ t.rowCount < rid) : t.get rid = .error .outOfBounds :=
  if_pos h

/-- The bytes of a row that is promised lie inside the table. -/
theorem end_le_size (hsize : t.data.size = t.rowCount * t.rowSize) (hpos : 1 ≤ rid)
    (hle : rid ≤ t.rowCount) :
    (rid - 1) * t.rowSize + t.rowSize = rid * t.rowSize ∧ rid * t.rowSize ≤ t.data.size := by
  refine ⟨?_, hsize ▸ Nat.mul_le_mul_right _ hle⟩
  rw [← Nat.succ_mul, Nat.succ_eq_add_one, Nat.sub_add_cancel hpos]

/-- **A row that is promised is never cut short**: what stands in its bytes is decoded. -/
theorem get_eq_map_decode (hsize : t.data.size = t.rowCount * t.rowSize) (hpos : 1 ≤ rid)
    (hle : rid ≤ t.rowCount) :
    t.get rid = (Cells.decode t.layout t.data _ ((rid - 1) * t.rowSize)).map
      (TableRow.ofCells rid) := by
  obtain ⟨hend, hinside⟩ := end_le_size hsize hpos hle
  rw [get, if_neg (by omega)]
  exact TableRow.atOffset_read (by rw [← rowSize]; omega)

/-- It is read, or one of its tags is bad. -/
theorem get_eq_ok_or_badTag (hsize : t.data.size = t.rowCount * t.rowSize) (hpos : 1 ≤ rid)
    (hle : rid ≤ t.rowCount) :
    (∃ r, t.get rid = .ok r) ∨ ∃ e, t.get rid = .error e ∧
      Cells.BadTag t.layout t.data (TableRow.table α).columns ((rid - 1) * t.rowSize) e := by
  rw [get_eq_map_decode hsize hpos hle]
  cases hdecode : Cells.decode t.layout t.data (TableRow.table α).columns
      ((rid - 1) * t.rowSize) with
  | ok vs => exact .inl ⟨_, rfl⟩
  | error e => exact .inr ⟨e, rfl, Cells.badTag_of_decode_eq_error hdecode⟩

/-- It is told by its own bytes. -/
theorem get_eq_read_extract (hsize : t.data.size = t.rowCount * t.rowSize) (hpos : 1 ≤ rid)
    (hle : rid ≤ t.rowCount) :
    t.get rid = (TableRow.read α t.layout
      (t.data.extract ((rid - 1) * t.rowSize) (rid * t.rowSize)) rid).atOffset 0 := by
  obtain ⟨hend, hinside⟩ := end_le_size hsize hpos hle
  have hwidth : t.layout.columnsWidth (TableRow.table α).columns = t.rowSize := rfl
  rw [get_eq_map_decode hsize hpos hle, TableRow.atOffset_read, Cells.decode_extract hinside,
    Nat.add_zero]
  · rw [hwidth]
    omega
  · rw [ByteArray.size_extract, ← rowSize]
    omega

end Table

end AliasStubs
