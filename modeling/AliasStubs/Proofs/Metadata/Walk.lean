import AliasStubs.Metadata.TableStream
import AliasStubs.Proofs.Bytes
import AliasStubs.Proofs.Sequences

/-!
# Walking over a table and looking its rows up

The walk over a table carries the offset of the next row, while a row that is asked for is looked up
at an offset that is computed from its number. A row that is read ends where its columns end, so the
walk comes to the offsets that are computed, and yields the rows that are looked up.

## Main results

* `TableRow.next_of_read` : a row that is read ends one row size behind its start.
* `Table.rows_eq` : **walking over a table is looking its rows up** one after the other.
* `Table.exists_cells_of_rows` : the rows of a table are numbered in order.
* `TableStream.row?_of_rows` : a row that is looked up is one that the walk yields.
-/

namespace AliasStubs

open Bytes Reading

variable {l : Layout} {data : ByteArray}

/-! ### Where a row ends -/

theorem Bytes.next_of_uint {width offset next n : Nat}
    (h : uint data width offset = .ok n next) : next = offset + width := by
  unfold uint at h
  split at h
  · cases h
    rfl
  · cases h

theorem Column.next_of_read {c : Column} {v : c.Cell} {offset next : Nat}
    (h : c.read l data offset = .ok v next) : next = offset + l.columnWidth c := by
  cases c with
  | word16 | word32 | string | guid | blob | row => exact next_of_uint h
  | coded k =>
      obtain ⟨value, mid, hvalue, h⟩ := bind_eq_ok_iff.mp h
      obtain rfl := next_of_uint hvalue
      cases hdecode : CodedIndex.decode k value with
      | error e =>
          rw [hdecode] at h
          cases h
      | ok index =>
          rw [hdecode] at h
          obtain ⟨-, rfl⟩ := pure_eq_ok_iff.mp h
          rfl

theorem Cells.next_of_read {cs : List Column} {vs : Cells cs} {offset next : Nat}
    (h : Cells.read l data cs offset = .ok vs next) : next = offset + l.columnsWidth cs := by
  induction cs generalizing offset next with
  | nil =>
      obtain ⟨-, rfl⟩ := pure_eq_ok_iff.mp h
      rfl
  | cons c cs ih =>
      obtain ⟨cell, mid, hcell, h⟩ := bind_eq_ok_iff.mp h
      obtain ⟨cells, last, hcells, h⟩ := bind_eq_ok_iff.mp h
      obtain ⟨-, rfl⟩ := pure_eq_ok_iff.mp h
      rw [ih hcells, Column.next_of_read hcell, Layout.columnsWidth, Layout.columnsWidth,
        List.foldr_cons, Nat.add_assoc]

section Rows

variable {α : Type} [TableRow α] {t : Table α} {s : TableStream}

/-- A row that is read has the number it was read by. -/
theorem TableRow.exists_cells_of_read {rid offset next : Nat} {r : α}
    (h : TableRow.read α l data rid offset = .ok r next) :
    ∃ cells, r = TableRow.ofCells rid cells := by
  obtain ⟨cells, _, -, h⟩ := bind_eq_ok_iff.mp h
  obtain ⟨rfl, -⟩ := pure_eq_ok_iff.mp h
  exact ⟨cells, rfl⟩

/-- A row that is read ends one row size behind its start. -/
theorem TableRow.next_of_read {rid offset next : Nat} {r : α}
    (h : TableRow.read α l data rid offset = .ok r next) :
    next = offset + l.rowSize (TableRow.table α) := by
  obtain ⟨cells, mid, hcells, h⟩ := bind_eq_ok_iff.mp h
  obtain ⟨-, rfl⟩ := pure_eq_ok_iff.mp h
  exact Cells.next_of_read hcells

/-! ### The steps of a walk -/

namespace Table

/-- The walk goes on behind a step. -/
theorem Cursor.walk_of_next {c c' : Cursor} {r : Except Failure α} (h : c.next t = some (r, c'))
    (done : Array (Except Failure α × Nat)) :
    c.walk t done = c'.walk t (done.push (r, c'.remaining t)) := by
  rw [walk]
  split
  · rename_i hnone
    cases hnone.symm.trans h
  · rename_i hsome
    obtain ⟨rfl, rfl⟩ := Prod.mk.inj (Option.some.inj (hsome.symm.trans h))
    rfl

/-- The walk ends where there is no step. -/
theorem Cursor.walk_of_next_eq_none {c : Cursor} (h : c.next t = none)
    (done : Array (Except Failure α × Nat)) : c.walk t done = done := by
  rw [walk]
  split
  · rfl
  · rename_i hsome
    cases h.symm.trans hsome

/-- There is no step behind the last row. -/
theorem Cursor.next_of_le {c : Cursor} (hle : t.rowCount ≤ c.row) : c.next t = none :=
  if_pos hle

/-- A row that is read is passed. -/
theorem Cursor.next_of_read {c : Cursor} {a : α} {offset : Nat} (hlt : c.row < t.rowCount)
    (h : TableRow.read α t.layout t.data (c.row + 1) c.offset = .ok a offset) :
    c.next t = some (.ok a, ⟨c.row + 1, offset⟩) := by
  rw [next, if_neg (Nat.not_le.mpr hlt), h]

/-- With a row that cannot be read, all rows are passed. -/
theorem Cursor.next_of_error {c : Cursor} {e : Failure} {offset : Nat} (hlt : c.row < t.rowCount)
    (h : TableRow.read α t.layout t.data (c.row + 1) c.offset = .error e offset) :
    c.next t = some (.error e, ⟨t.rowCount, offset⟩) := by
  rw [next, if_neg (Nat.not_le.mpr hlt), h]

/-- The walk goes on with a row that is read. -/
theorem Cursor.walk_of_read {c : Cursor} {a : α} {offset : Nat} (hlt : c.row < t.rowCount)
    (h : TableRow.read α t.layout t.data (c.row + 1) c.offset = .ok a offset)
    (done : Array (Except Failure α × Nat)) :
    c.walk t done =
      walk ⟨c.row + 1, offset⟩ t (done.push (.ok a, t.rowCount - (c.row + 1))) :=
  walk_of_next (next_of_read hlt h) done

/-- The walk ends behind the last row. -/
theorem Cursor.walk_of_le {c : Cursor} (hle : t.rowCount ≤ c.row)
    (done : Array (Except Failure α × Nat)) : c.walk t done = done :=
  walk_of_next_eq_none (next_of_le hle) done

/-- A row that cannot be read ends the walk. -/
theorem Cursor.walk_of_error {c : Cursor} {e : Failure} {offset : Nat} (hlt : c.row < t.rowCount)
    (h : TableRow.read α t.layout t.data (c.row + 1) c.offset = .error e offset)
    (done : Array (Except Failure α × Nat)) :
    c.walk t done = done.push (.error e, t.rowCount - t.rowCount) :=
  (walk_of_next (next_of_error hlt h) done).trans (walk_of_le (Nat.le_refl _) _)

omit [TableRow α] in
/-- The results behind some that are all there. -/
theorem mapM_push {results : Array (Except Failure α × Nat)} {done : Array α}
    (h : results.mapM (·.1) = .ok done) (r : Except Failure α) (n : Nat) :
    (results.push (r, n)).mapM (·.1) = r.map done.push := by
  rw [← Array.append_singleton, Array.mapM_append, h]
  cases r <;> simp <;> rfl

/-! ### Walking and looking up -/

/-- The row behind `n` others is read at the end of `n` row sizes. -/
theorem get_succ {n : Nat} (hlt : n < t.rowCount) :
    t.get (n + 1) = (TableRow.read α t.layout t.data (n + 1)).atOffset (n * t.rowSize) := by
  rw [get, if_neg (by omega), Nat.add_sub_cancel]

/-- From a place at the computed offset on, the walk yields the rows that are looked up. The
invariant is that all rows so far are there, and that the offset stays the computed one. -/
theorem Cursor.mapM_walk {c : Cursor} {results : Array (Except Failure α × Nat)} {done : Array α}
    (hoffset : c.offset = c.row * t.rowSize) (hdone : results.mapM (·.1) = .ok done) :
    (c.walk t results).mapM (·.1) =
      ((List.range' (c.row + 1) (t.rowCount - c.row)).mapM t.get).map (done ++ ·.toArray) := by
  induction hn : t.rowCount - c.row generalizing c results done with
  | zero =>
      rw [walk_of_le (Nat.sub_eq_zero_iff_le.mp hn), hdone]
      simp [pure, Except.pure, Except.map]
  | succ n ih =>
      have hlt : c.row < t.rowCount := by omega
      have hget : t.get (c.row + 1) =
          (TableRow.read α t.layout t.data (c.row + 1)).atOffset c.offset := by
        rw [get_succ hlt, hoffset]
      rw [List.range'_succ, List.mapM_cons, hget, Reader.atOffset]
      cases hread : TableRow.read α t.layout t.data (c.row + 1) c.offset with
      | error e offset =>
          rw [walk_of_error hlt hread, mapM_push hdone]
          rfl
      | ok a offset =>
          have hnext : offset = (c.row + 1) * t.rowSize := by
            rw [TableRow.next_of_read hread, hoffset, Nat.succ_mul, rowSize]
          have hpush := mapM_push hdone (.ok a) (t.rowCount - (c.row + 1))
          rw [walk_of_read hlt hread, ih (c := ⟨c.row + 1, offset⟩) hnext hpush
            (by dsimp only; omega)]
          change Except.map _ ((List.range' (c.row + 1 + 1) n).mapM t.get) =
            Except.map _ ((List.range' (c.row + 1 + 1) n).mapM t.get >>= fun rows =>
              pure (a :: rows))
          cases (List.range' (c.row + 1 + 1) n).mapM t.get with
          | error e => rfl
          | ok rows => simp [Except.map, bind, Except.bind, pure, Except.pure]

/-- **Walking over a table is looking its rows up** one after the other. -/
theorem rows_eq : t.rows = ((List.range' 1 t.rowCount).mapM t.get).map List.toArray := by
  have hoffset : Cursor.start.offset = Cursor.start.row * t.rowSize := by
    simp [Cursor.start]
  have hdone : (#[] : Array (Except Failure α × Nat)).mapM (·.1) = .ok (#[] : Array α) := by
    simp [pure, Except.pure]
  rw [rows, results, Cursor.mapM_walk hoffset hdone]
  simp [Cursor.start]

/-- A table can be walked over exactly if every row can be looked up. -/
theorem rows_eq_ok_iff {rows : Array α} : t.rows = .ok rows ↔
    List.Forall₂ (fun rid r => t.get rid = .ok r) (List.range' 1 t.rowCount) rows.toList := by
  rw [rows_eq, map_eq_ok_iff, ← mapM_eq_ok_iff]
  constructor
  · rintro ⟨l, hl, rfl⟩
    exact hl
  · intro h
    exact ⟨rows.toList, h, rows.toArray_toList⟩

/-- A walk over all rows yields as many as the table has. -/
theorem size_of_rows {rows : Array α} (h : t.rows = .ok rows) : rows.size = t.rowCount := by
  rw [← Array.length_toList, ← (rows_eq_ok_iff.mp h).length_eq, List.length_range']

/-- The row at each position is the one that is looked up by its number. -/
theorem getElem?_of_rows {rows : Array α} (h : t.rows = .ok rows) (i : Nat) :
    rows[i]? = (t.get (i + 1)).toOption := by
  have hsize := size_of_rows h
  by_cases hi : i < rows.size
  · have hget : t.get (i + 1) = .ok rows[i] := by
      have := (rows_eq_ok_iff.mp h).get (i := i) (by rw [List.length_range']; omega) hi
      simpa [Nat.add_comm] using this
    rw [hget, Array.getElem?_eq_getElem hi]
    rfl
  · have hget : t.get (i + 1) = .error .outOfBounds := by
      rw [get, if_pos (by omega)]
    rw [hget, Array.getElem?_eq_none (by omega)]
    rfl

/-- A row that is looked up has the number that it is looked up by. -/
theorem exists_cells_of_get {rid : Nat} {r : α} (h : t.get rid = .ok r) :
    ∃ cells, r = TableRow.ofCells rid cells := by
  rw [get] at h
  split at h
  · cases h
  · rw [Reader.atOffset] at h
    split at h
    · rename_i hread
      cases h
      exact TableRow.exists_cells_of_read hread
    · cases h

/-- **The rows of a table are numbered in order.** -/
theorem exists_cells_of_rows {rows : Array α} (h : t.rows = .ok rows) {i : Nat} {r : α}
    (hr : rows[i]? = some r) : ∃ cells, r = TableRow.ofCells (i + 1) cells := by
  rw [getElem?_of_rows h] at hr
  cases hget : t.get (i + 1) with
  | error e =>
      rw [hget] at hr
      cases hr
  | ok r' =>
      rw [hget] at hr
      cases hr
      exact exists_cells_of_get hget

end Table

/-! ### Rows of a stream -/

namespace TableStream

/-- The row at each position is the one that is looked up by its number. -/
theorem getElem?_of_rows {rows : Array α} (h : s.rows α = .ok rows) (i : Nat) :
    rows[i]? = s.row? α (i + 1) := by
  unfold TableStream.rows at h
  unfold row?
  cases ht : s.table? α with
  | none =>
      rw [ht] at h
      cases h
      rfl
  | some t =>
      rw [ht] at h
      exact Table.getElem?_of_rows h i

/-- There is no row zero. -/
theorem row?_zero (s : TableStream) : s.row? α 0 = none := by
  unfold row?
  cases s.table? α with
  | none => rfl
  | some t => rfl

/-- A row that is looked up by its number stands at the position before that number. -/
theorem row?_of_rows {rows : Array α} (h : s.rows α = .ok rows) (rid : Nat) :
    s.row? α rid = if rid = 0 then none else rows[rid - 1]? := by
  by_cases hrid : rid = 0
  · rw [if_pos hrid, hrid, row?_zero]
  · rw [if_neg hrid, getElem?_of_rows h, Nat.sub_add_cancel (Nat.pos_of_ne_zero hrid)]

/-- The rows of a stream are numbered in order. -/
theorem exists_cells_of_rows {rows : Array α} (h : s.rows α = .ok rows) {i : Nat} {r : α}
    (hr : rows[i]? = some r) : ∃ cells, r = TableRow.ofCells (i + 1) cells := by
  unfold TableStream.rows at h
  cases ht : s.table? α with
  | none =>
      rw [ht] at h
      cases h
      cases hr
  | some t =>
      rw [ht] at h
      exact Table.exists_cells_of_rows h hr

end TableStream

end Rows

end AliasStubs
