import AliasStubs.Proofs.Metadata.Walk

/-!
# Rows that are written are read back

A row is written column by column, each value in the width that the layout gives its column. A value
that **fits** its width is read back, so a row whose values all fit is, and so is a table of such
rows: the walk over the table yields exactly the rows, in order.

The nine decoded tables are covered at once. A `StoredRow` is a decoded row that can be taken apart
into its number and its values; nothing else about the nine types is used.

## Main definitions

* `CodedIndex.number`, `Column.number` : the number that a column stores.
* `Column.Fits`, `Cells.Fit` : the values fit the widths of a layout.
* `Column.bytes`, `Cells.bytes` : the bytes of a value and of a row.
* `StoredRow` : decoded rows that can be written.

## Main results

* `CodedIndex.decode_number` : tag and row are found again.
* `TableRow.read_of_holdsAt` : a row is read back.
* `Table.results_of_rows` : the walk over a table yields its rows.
-/

namespace AliasStubs

open Bytes Reading

/-! ### Coded indexes -/

namespace CodedIndex

/-- The number that a coded index of kind `k` is stored as. -/
def number (k : CodedKind) (i : CodedIndex) : Nat :=
  i.row * k.tagCount + k.slots.idxOf (some i.table)

/-- A table that a kind can select stands in one of its slots. -/
theorem mem_slots {k : CodedKind} {t : TableId} (h : t ∈ k.tables) : some t ∈ k.slots := by
  obtain ⟨s, hs, ht⟩ := List.mem_filterMap.mp h
  obtain rfl : s = some t := ht
  exact hs

/-- **Tag and row of a coded index are found again** in the number that it is stored as. -/
theorem decode_number {k : CodedKind} {i : CodedIndex} (h : i.table ∈ k.tables) :
    decode k (number k i) = .ok i := by
  have hlt : k.slots.idxOf (some i.table) < k.slots.length := List.idxOf_lt_length_iff.mpr
    (mem_slots h)
  have hroom : k.slots.idxOf (some i.table) < k.tagCount := by
    have := k.length_slots_le
    omega
  have htag : number k i % k.tagCount = k.slots.idxOf (some i.table) := by
    rw [number, Nat.mul_add_mod_self_right, Nat.mod_eq_of_lt hroom]
  have hrow : number k i / k.tagCount = i.row := by
    rw [number, Nat.add_comm, Nat.add_mul_div_right _ _ (by omega),
      Nat.div_eq_of_lt hroom, Nat.zero_add]
  have hslot : k.slots[k.slots.idxOf (some i.table)]? = some (some i.table) := by
    rw [List.getElem?_eq_getElem hlt, List.getElem_idxOf]
  simp only [decode, htag, hrow, hslot]

end CodedIndex

/-! ### Columns -/

namespace Column

/-- The number that a column stores. -/
def number : (c : Column) → c.Cell → Nat
  | .word16, n => n
  | .word32, n => n
  | .string, n => n
  | .guid, n => n
  | .blob, n => n
  | .row _, n => n
  | .coded k, i => i.number k

/-- Whether a coded index selects a table that it can select. -/
def Selects : (c : Column) → c.Cell → Prop
  | .coded k, i => i.table ∈ k.tables
  | _, _ => True

instance : (c : Column) → (v : c.Cell) → Decidable (c.Selects v)
  | .coded k, i => inferInstanceAs (Decidable (i.table ∈ k.tables))
  | .word16, _ => isTrue trivial
  | .word32, _ => isTrue trivial
  | .string, _ => isTrue trivial
  | .guid, _ => isTrue trivial
  | .blob, _ => isTrue trivial
  | .row _, _ => isTrue trivial

/-- A value fits a column if its number fits the width that the layout gives the column. -/
def Fits (l : Layout) (c : Column) (v : c.Cell) : Prop :=
  c.Selects v ∧ c.number v < 256 ^ l.columnWidth c

instance (l : Layout) (c : Column) (v : c.Cell) : Decidable (c.Fits l v) :=
  inferInstanceAs (Decidable (_ ∧ _))

/-- The bytes of a value. -/
def bytes (l : Layout) (c : Column) (v : c.Cell) : List UInt8 :=
  ofUint (l.columnWidth c) (c.number v)

@[simp] theorem length_bytes (l : Layout) (c : Column) (v : c.Cell) :
    (c.bytes l v).length = l.columnWidth c :=
  length_ofUint _ _

variable {l : Layout} {data : ByteArray} {offset : Nat}

/-- A value that fits its column is read back. -/
theorem read_of_holdsAt {c : Column} {v : c.Cell} (h : HoldsAt data offset (c.bytes l v))
    (hv : c.Fits l v) : c.read l data offset = .ok v (offset + l.columnWidth c) := by
  obtain ⟨hselects, hlt⟩ := hv
  have hnumber := uint_of_holdsAt h hlt
  cases c with
  | coded k =>
      have hdecode : CodedIndex.decode k (number (.coded k) v) = .ok v :=
        CodedIndex.decode_number hselects
      change CodedIndex.read l data k offset = _
      rw [CodedIndex.read]
      change (uint data (l.columnWidth (.coded k)) >>= _) offset = _
      rw [bind_of_eq_ok hnumber, hdecode]
      rfl
  | word16 | word32 | string | guid | blob | row => exact hnumber

end Column

/-! ### Rows -/

@[simp] theorem Layout.columnsWidth_cons (l : Layout) (c : Column) (cs : List Column) :
    l.columnsWidth (c :: cs) = l.columnWidth c + l.columnsWidth cs := by
  rw [columnsWidth, List.foldr_cons, columnsWidth]

namespace Cells

/-- Whether every value of a row fits its column. -/
def Fit (l : Layout) : (cs : List Column) → Cells cs → Prop
  | [], _ => True
  | c :: cs, (v, vs) => c.Fits l v ∧ Fit l cs vs

instance (l : Layout) : (cs : List Column) → (vs : Cells cs) → Decidable (Fit l cs vs)
  | [], _ => isTrue trivial
  | c :: cs, (v, vs) =>
    have : Decidable (Fit l cs vs) := instDecidableFit l cs vs
    inferInstanceAs (Decidable (c.Fits l v ∧ Fit l cs vs))

/-- The bytes of a row. -/
def bytes (l : Layout) : (cs : List Column) → Cells cs → List UInt8
  | [], _ => []
  | c :: cs, (v, vs) => c.bytes l v ++ bytes l cs vs

variable {l : Layout} {data : ByteArray}

@[simp] theorem length_bytes (l : Layout) (cs : List Column) (vs : Cells cs) :
    (bytes l cs vs).length = l.columnsWidth cs := by
  induction cs with
  | nil => rfl
  | cons c cs ih =>
      obtain ⟨v, vs⟩ := vs
      rw [bytes, List.length_append, Column.length_bytes, ih, Layout.columnsWidth_cons]

/-- A row whose values fit is read back. -/
theorem read_of_holdsAt {cs : List Column} {vs : Cells cs} {offset : Nat}
    (h : HoldsAt data offset (bytes l cs vs)) (hvs : Fit l cs vs) :
    Cells.read l data cs offset = .ok vs (offset + l.columnsWidth cs) := by
  induction cs generalizing offset with
  | nil => rfl
  | cons c cs ih =>
      obtain ⟨v, vs⟩ := vs
      obtain ⟨hv, hvs⟩ := hvs
      have htail := h.right
      rw [Column.length_bytes] at htail
      rw [Cells.read, bind_of_eq_ok (Column.read_of_holdsAt h.left hv),
        bind_of_eq_ok (ih htail hvs), Layout.columnsWidth_cons, ← Nat.add_assoc]
      rfl

end Cells

/-- Decoded rows that can be written: they are made up of their number and their values. -/
class StoredRow (α : Type) extends TableRow α where
  /-- The number of a row. -/
  rid : α → Nat
  /-- The values of a row. -/
  cells : α → Cells table.columns
  /-- Number and values make up the row. -/
  ofCells_cells : ∀ a, ofCells (rid a) (cells a) = a

instance : StoredRow TypeRefRow where
  rid := (·.rid)
  cells r := (r.resolutionScope, r.typeName, r.typeNamespace, ())
  ofCells_cells _ := rfl

instance : StoredRow TypeDefRow where
  rid := (·.rid)
  cells r :=
    (r.flags, r.typeName, r.typeNamespace, r.extends_, r.fieldList, r.methodList, ())
  ofCells_cells _ := rfl

instance : StoredRow MethodDefRow where
  rid := (·.rid)
  cells r := (r.rva, r.implFlags, r.flags, r.name, r.signature, r.paramList, ())
  ofCells_cells _ := rfl

instance : StoredRow ParamRow where
  rid := (·.rid)
  cells r := (r.flags, r.sequence, r.name, ())
  ofCells_cells _ := rfl

instance : StoredRow MemberRefRow where
  rid := (·.rid)
  cells r := (r.parent, r.name, r.signature, ())
  ofCells_cells _ := rfl

instance : StoredRow CustomAttributeRow where
  rid := (·.rid)
  cells r := (r.parent, r.constructor, r.value, ())
  ofCells_cells _ := rfl

instance : StoredRow TypeSpecRow where
  rid := (·.rid)
  cells r := (r.signature, ())
  ofCells_cells _ := rfl

instance : StoredRow NestedClassRow where
  rid := (·.rid)
  cells r := (r.nestedClass, r.enclosingClass, ())
  ofCells_cells _ := rfl

instance : StoredRow GenericParamRow where
  rid := (·.rid)
  cells r := (r.number, r.flags, r.owner, r.name, ())
  ofCells_cells _ := rfl

section Tables

variable {α : Type} [StoredRow α] {l : Layout} {data : ByteArray}

/-- Whether every value of a row fits its column. -/
def TableRow.Fits (l : Layout) (a : α) : Prop :=
  Cells.Fit l _ (StoredRow.cells a)

instance (l : Layout) (a : α) : Decidable (TableRow.Fits l a) :=
  inferInstanceAs (Decidable (Cells.Fit l _ _))

/-- The bytes of a row. -/
def TableRow.bytes (l : Layout) (a : α) : List UInt8 :=
  Cells.bytes l _ (StoredRow.cells a)

@[simp] theorem TableRow.length_bytes (l : Layout) (a : α) :
    (TableRow.bytes l a).length = l.rowSize (TableRow.table α) :=
  Cells.length_bytes l _ _

/-- **A row that fits is read back**, under the number that it holds. -/
theorem TableRow.read_of_holdsAt {a : α} {offset : Nat}
    (h : HoldsAt data offset (TableRow.bytes l a)) (ha : TableRow.Fits l a) :
    TableRow.read α l data (StoredRow.rid a) offset =
      .ok a (offset + l.rowSize (TableRow.table α)) := by
  rw [TableRow.read, bind_of_eq_ok (Cells.read_of_holdsAt h ha), StoredRow.ofCells_cells]
  rfl

/-! ### Tables -/

/-- The bytes of a run of rows. -/
def TableRow.bytesOf (l : Layout) (rows : List α) : List UInt8 :=
  rows.flatMap (TableRow.bytes l)

/-- From any place on, the walk yields the rows that are left. -/
theorem Table.Cursor.walk_of_rows {t : Table α} {c : Table.Cursor} {rows : List α}
    (h : HoldsAt t.data c.offset (TableRow.bytesOf t.layout rows))
    (hfits : ∀ a ∈ rows, TableRow.Fits t.layout a)
    (hrid : rows.map StoredRow.rid = List.range' (c.row + 1) rows.length)
    (hcount : c.row + rows.length = t.rowCount) (done : Array (Except Failure α × Nat)) :
    (c.walk t done).toList.map (·.1) = done.toList.map (·.1) ++ rows.map .ok := by
  induction rows generalizing c done with
  | nil =>
      rw [walk_of_le (by rw [List.length_nil] at hcount; omega), List.map_nil, List.append_nil]
  | cons a rows ih =>
      rw [List.length_cons] at hcount
      rw [List.map_cons, List.length_cons, List.range'_succ] at hrid
      obtain ⟨hrid, hrids⟩ := List.cons.inj hrid
      obtain ⟨ha, hrows⟩ := List.forall_mem_cons.mp hfits
      rw [TableRow.bytesOf, List.flatMap_cons] at h
      have htail := h.right
      rw [TableRow.length_bytes] at htail
      have hread := TableRow.read_of_holdsAt h.left ha
      rw [hrid] at hread
      rw [walk_of_read (by omega) hread, ih htail hrows hrids (by dsimp only; omega),
        Array.toList_push, List.map_append, List.append_assoc, List.map_cons, List.map_cons]
      rfl

/-- **The walk over a table yields exactly its rows**, in order. -/
theorem Table.results_of_rows {t : Table α} {rows : List α}
    (h : HoldsAt t.data 0 (TableRow.bytesOf t.layout rows))
    (hfits : ∀ a ∈ rows, TableRow.Fits t.layout a)
    (hrid : rows.map StoredRow.rid = List.range' 1 rows.length)
    (hcount : rows.length = t.rowCount) :
    t.results.toList.map (·.1) = rows.map .ok := by
  have hall : Cursor.start.row + rows.length = t.rowCount := by
    rw [Cursor.start, Nat.zero_add, hcount]
  exact Cursor.walk_of_rows (c := Cursor.start) h hfits hrid hall #[]

/-- A table whose bytes are those of some rows has these rows. -/
theorem Table.rows_of_bytes (l : Layout) {rows : List α} (hfits : ∀ a ∈ rows, TableRow.Fits l a)
    (hrid : rows.map StoredRow.rid = List.range' 1 rows.length) :
    (⟨⟨(TableRow.bytesOf l rows).toArray⟩, rows.length, l⟩ : Table α).rows = .ok rows.toArray := by
  have hdata := holdsAt_zero (TableRow.bytesOf l rows) []
  rw [List.append_nil] at hdata
  generalize ht : (⟨⟨(TableRow.bytesOf l rows).toArray⟩, rows.length, l⟩ : Table α) = t
  have hresults : t.results.toList.map (·.1) = rows.map .ok := by
    subst ht
    exact results_of_rows hdata hfits hrid rfl
  have hall : List.Forall₂ (fun e a => e.1 = .ok a) t.results.toList rows := by
    have heq := List.forall₂_eq_eq_eq.symm ▸ hresults
    rwa [List.forall₂_map_left_iff, List.forall₂_map_right_iff] at heq
  rw [Table.rows, Array.mapM_eq_mapM_toList, mapM_eq_ok_iff.mpr hall]
  rfl

end Tables

end AliasStubs
