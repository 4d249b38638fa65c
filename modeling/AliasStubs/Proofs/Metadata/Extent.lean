import AliasStubs.Proofs.Metadata.Decoding

/-!
# The bytes that a row is read from

A row is read column by column, and a column looks at no bytes but its own. If they are there,
reading goes on behind them, or stops there over a bad tag; if they are not, it stops in front of
them. So however reading a row ends, it never gets beyond the bytes that the row takes, and it never
sees what stands before or behind them.

## Main definitions

* `CodedKind.tagAt` : the tag of a coded index that stands at some place.
* `Reading.countedFrom` : a result whose offset is counted from another start.

## Main results

* `Column.read_eq_error_cases` : the two ways in which a column fails.
* `TableRow.read_cases` : **the three ways in which reading a row ends**, and where it does.
* `TableRow.read_eq_countedFrom` : **a row is read from its own bytes**.
-/

namespace AliasStubs

open Bytes Reading

variable {l : Layout} {data : ByteArray}

/-! ### Where reading ends -/

/-- The tag of a coded index that is stored in the `width` bytes at `place`. -/
def CodedKind.tagAt (k : CodedKind) (data : ByteArray) (width place : Nat) : Nat :=
  littleEndian data width place % k.tagCount

namespace Column

variable {c : Column} {offset : Nat}

/-- A column whose bytes are not all there is out of bounds. -/
theorem read_of_lt (h : data.size < offset + l.columnWidth c) :
    c.read l data offset = .error .outOfBounds offset := by
  have hnumber : uint data (l.columnWidth c) offset = .error .outOfBounds offset :=
    if_neg (Nat.not_le.mpr h)
  cases c with
  | word16 | word32 | string | guid | blob | row => exact hnumber
  | coded k =>
      change CodedIndex.read l data k offset = _
      exact bind_of_eq_error hnumber _

/-- A column that is read has all of its bytes. -/
theorem le_size_of_read {v : c.Cell} {next : Nat} (h : c.read l data offset = .ok v next) :
    offset + l.columnWidth c ≤ data.size := by
  by_contra hlt
  rw [read_of_lt (Nat.not_le.mp hlt)] at h
  cases h

/-- **A column fails in one of two ways.** Its bytes are not all there, and reading stops in front
of them; or they hold a tag that selects no table, and it stops behind them. -/
theorem read_eq_error_cases {e : Failure} {stop : Nat}
    (h : c.read l data offset = .error e stop) :
    (data.size < offset + l.columnWidth c ∧ e = .outOfBounds ∧ stop = offset) ∨
    ∃ k, c = .coded k ∧ k.SelectsNone (k.tagAt data (l.codedWidth k) offset) ∧
      e = .malformed (.badTag (k.tagAt data (l.codedWidth k) offset) k) ∧
      stop = offset + l.codedWidth k := by
  by_cases hfits : offset + l.columnWidth c ≤ data.size
  · rw [read_of_le hfits] at h
    cases hdecode : c.decode (littleEndian data (l.columnWidth c) offset) with
    | ok v =>
        rw [hdecode] at h
        cases h
    | error e' =>
        rw [hdecode] at h
        cases h
        obtain ⟨k, rfl, hk⟩ := eq_coded_of_decode_eq_error hdecode
        obtain ⟨hnone, he⟩ := CodedIndex.eq_of_decode_eq_error hk
        exact .inr ⟨k, rfl, hnone, he, rfl⟩
  · have hlt := Nat.not_le.mp hfits
    rw [read_of_lt hlt] at h
    cases h
    exact .inl ⟨hlt, rfl, rfl⟩

end Column

@[simp] theorem Layout.columnsWidth_append (l : Layout) (front back : List Column) :
    l.columnsWidth (front ++ back) = l.columnsWidth front + l.columnsWidth back := by
  induction front with
  | nil => exact (Nat.zero_add _).symm
  | cons c front ih =>
      rw [List.cons_append, columnsWidth_cons, columnsWidth_cons, ih, Nat.add_assoc]

namespace Cells

variable {cs : List Column} {offset : Nat}

/-- **Columns fail where one of them does**, which starts behind those before it. -/
theorem exists_of_read_eq_error {e : Failure} {stop : Nat}
    (h : Cells.read l data cs offset = .error e stop) :
    ∃ front c back, cs = front ++ c :: back ∧
      c.read l data (offset + l.columnsWidth front) = .error e stop := by
  induction cs generalizing offset with
  | nil => cases h
  | cons c cs ih =>
      rw [Cells.read] at h
      -- Either the first column fails, or it is read and one of those behind it fails.
      cases hhead : c.read l data offset with
      | error e' stop' =>
          rw [bind_of_eq_error hhead] at h
          cases h
          exact ⟨[], c, cs, rfl, hhead⟩
      | ok v next =>
          rw [bind_of_eq_ok hhead] at h
          obtain rfl := Column.next_of_read hhead
          cases htail : Cells.read l data cs (offset + l.columnWidth c) with
          | ok vs last =>
              rw [bind_of_eq_ok htail] at h
              cases h
          | error e' stop' =>
              rw [bind_of_eq_error htail] at h
              cases h
              obtain ⟨front, c', back, rfl, hread⟩ := ih htail
              refine ⟨c :: front, c', back, rfl, ?_⟩
              rw [Layout.columnsWidth_cons, ← Nat.add_assoc]
              exact hread

/-- Columns that are read, if there are any, have all of their bytes. -/
theorem le_size_of_read {vs : Cells cs} {next : Nat} (hcs : cs ≠ [])
    (h : Cells.read l data cs offset = .ok vs next) :
    offset + l.columnsWidth cs ≤ data.size := by
  induction cs generalizing offset next with
  | nil => exact absurd rfl hcs
  | cons c cs ih =>
      obtain ⟨v, mid, hhead, h⟩ := bind_eq_ok_iff.mp h
      obtain ⟨vs, last, htail, -⟩ := bind_eq_ok_iff.mp h
      have hle := Column.le_size_of_read hhead
      obtain rfl := Column.next_of_read hhead
      rw [Layout.columnsWidth_cons, ← Nat.add_assoc]
      by_cases hnil : cs = []
      · subst hnil
        exact hle
      · exact ih hnil htail

end Cells

/-- Every table has columns. -/
theorem TableId.columns_ne_nil (t : TableId) : t.columns ≠ [] := by
  cases t <;> exact List.cons_ne_nil _ _

/-- **Reading a row ends in one of three ways.** All bytes of the row are there, and it is read, up
to where they end. Or some of them are not there, and reading is out of bounds. Or one of the row's
tags selects no table, and reading stops behind it. -/
theorem TableRow.read_cases (α : Type) [TableRow α] (l : Layout) (data : ByteArray)
    (rid offset : Nat) :
    (offset + l.rowSize (table α) ≤ data.size ∧
      ∃ r, TableRow.read α l data rid offset = .ok r (offset + l.rowSize (table α))) ∨
    (data.size < offset + l.rowSize (table α) ∧
      ∃ stop, TableRow.read α l data rid offset = .error .outOfBounds stop) ∨
    ∃ k place, Column.coded k ∈ (table α).columns ∧
      offset ≤ place ∧ place + l.codedWidth k ≤ offset + l.rowSize (table α) ∧
      k.SelectsNone (k.tagAt data (l.codedWidth k) place) ∧
      TableRow.read α l data rid offset =
        .error (.malformed (.badTag (k.tagAt data (l.codedWidth k) place) k))
          (place + l.codedWidth k) := by
  cases hread : Cells.read l data (table α).columns offset with
  | ok vs next =>
      have hle := Cells.le_size_of_read (table α).columns_ne_nil hread
      obtain rfl := Cells.next_of_read hread
      exact .inl ⟨hle, ofCells rid vs, bind_of_eq_ok hread _⟩
  | error e stop =>
      have hrow : TableRow.read α l data rid offset = .error e stop := bind_of_eq_error hread _
      obtain ⟨front, c, back, hcolumns, hc⟩ := Cells.exists_of_read_eq_error hread
      have hsize : l.rowSize (table α) =
          l.columnsWidth front + (l.columnWidth c + l.columnsWidth back) := by
        rw [Layout.rowSize, hcolumns, Layout.columnsWidth_append, Layout.columnsWidth_cons]
      obtain ⟨hlt, rfl, -⟩ | ⟨k, rfl, hnone, rfl, rfl⟩ := Column.read_eq_error_cases hc
      · exact .inr (.inl ⟨by omega, stop, hrow⟩)
      · have hmem : Column.coded k ∈ (table α).columns := by
          rw [hcolumns]
          exact List.mem_append_right _ List.mem_cons_self
        have hwidth : l.columnWidth (.coded k) = l.codedWidth k := rfl
        exact .inr (.inr ⟨k, _, hmem, Nat.le_add_right _ _, by omega, hnone, hrow⟩)

/-! ### What reading sees -/

namespace Reading

variable {ε α β : Type} {start i : Nat}

/-- A result whose offset is counted from `start`. -/
def countedFrom (start : Nat) : EStateM.Result ε Nat α → EStateM.Result ε Nat α
  | .ok a offset => .ok a (start + offset)
  | .error e offset => .error e (start + offset)

/-- Two sequences come to the same, counted from `start`, if their parts do, the second ones after
what the first ones come to. -/
theorem bind_eq_countedFrom {r r' : EStateM ε Nat α} {f f' : α → EStateM ε Nat β}
    (h : r (start + i) = countedFrom start (r' i))
    (hf : ∀ a j, r' i = .ok a j → f a (start + j) = countedFrom start (f' a j)) :
    (r >>= f) (start + i) = countedFrom start ((r' >>= f') i) := by
  change EStateM.bind r f (start + i) = countedFrom start (EStateM.bind r' f' i)
  unfold EStateM.bind
  rw [h]
  cases hr : r' i with
  | ok a j => exact hf a j hr
  | error e j => rfl

end Reading

section Parts

variable {start stop i : Nat}

/-- A part of the data that would end behind them ends with them. -/
theorem Bytes.extract_min (data : ByteArray) (start stop : Nat) :
    data.extract start (min stop data.size) = data.extract start stop := by
  have hwhole : (data.extract 0 data.size).extract start stop =
      data.extract (0 + start) (min (0 + stop) data.size) := ByteArray.extract_extract
  rw [ByteArray.extract_zero_size, Nat.zero_add, Nat.zero_add] at hwhole
  exact hwhole.symm

/-- A number is read in a part of the data as it is read in the whole, unless it lies across the end
of the part. -/
theorem Bytes.uint_extract {width : Nat} (hwidth : 0 < width) (h : start + i + width ≤ stop) :
    uint data width (start + i) = countedFrom start (uint (data.extract start stop) width i) := by
  have hsize : (data.extract start stop).size = min stop data.size - start :=
    ByteArray.size_extract
  by_cases hfits : start + i + width ≤ data.size
  · have hnumber : littleEndian (data.extract start stop) width i =
        littleEndian data width (start + i) := by
      -- The part may be cut short by the end of the data.
      rw [← extract_min]
      exact littleEndian_extract (Nat.min_le_right _ _) (Nat.le_min.mpr ⟨h, hfits⟩)
    rw [uint, if_pos hfits, uint, if_pos (by omega), hnumber, countedFrom, Nat.add_assoc]
  · rw [uint, if_neg hfits, uint, if_neg (by omega), countedFrom]

theorem Layout.columnWidth_pos (l : Layout) (c : Column) : 0 < l.columnWidth c := by
  have h (b : Bool) : 0 < indexWidth b := by cases b <;> decide
  cases c with
  | word16 | word32 => simp [columnWidth]
  | string | guid | blob | row | coded => exact h _

/-- A column sees no other bytes than its own. -/
theorem Column.read_extract {c : Column} (h : start + i + l.columnWidth c ≤ stop) :
    c.read l data (start + i) = countedFrom start (c.read l (data.extract start stop) i) := by
  have hnumber : uint data (l.columnWidth c) (start + i) =
      countedFrom start (uint (data.extract start stop) (l.columnWidth c) i) :=
    uint_extract (l.columnWidth_pos c) h
  cases c with
  | word16 | word32 | string | guid | blob | row => exact hnumber
  | coded k =>
      refine bind_eq_countedFrom hnumber fun value j _ => ?_
      cases CodedIndex.decode k value <;> rfl

/-- Columns see no other bytes than their own. -/
theorem Cells.read_extract {cs : List Column} (h : start + i + l.columnsWidth cs ≤ stop) :
    Cells.read l data cs (start + i) =
      countedFrom start (Cells.read l (data.extract start stop) cs i) := by
  induction cs generalizing i with
  | nil => rfl
  | cons c cs ih =>
      rw [Layout.columnsWidth_cons] at h
      refine bind_eq_countedFrom (Column.read_extract (by omega)) fun v j hhead => ?_
      obtain rfl := Column.next_of_read hhead
      exact bind_eq_countedFrom (ih (by omega)) fun vs j _ => rfl

/-- **A row is read from its own bytes**, whether or not they are all there. -/
theorem TableRow.read_eq_countedFrom (α : Type) [TableRow α] (l : Layout) (data : ByteArray)
    (rid offset : Nat) :
    TableRow.read α l data rid offset = countedFrom offset
      (TableRow.read α l (data.extract offset (offset + l.rowSize (table α))) rid 0) := by
  have hcells : Cells.read l data (table α).columns (offset + 0) = countedFrom offset
      (Cells.read l (data.extract offset (offset + l.rowSize (table α))) (table α).columns 0) :=
    Cells.read_extract (Nat.le_refl _)
  exact bind_eq_countedFrom hcells fun _ _ _ => rfl

end Parts

end AliasStubs
