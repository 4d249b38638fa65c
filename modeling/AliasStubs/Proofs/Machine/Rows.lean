import AliasStubs.Metadata.Table
import AliasStubs.Proofs.Machine.Layout
import AliasStubs.Proofs.Metadata.Rows

/-!
# Rows and tables on a machine

A row is read at a position that is computed from its number, or at the one where the row before it
has ended. The first is a product of two numbers of 32 bits. The second is only ever followed for as
many steps as the table has rows, so that what is left can be told at every step.

## Main definitions

* `Machine.decode`, `Machine.readCell`, `Machine.readRow` : coded indexes, columns and rows.
* `Machine.TableView` : a table as a machine keeps it, `TableView.of` keeps a table.
* `Machine.Numbered` : rows with the numbers one, two and so on.

## Main results

* `Machine.readRow_eq` : **reading a row never faults**.
* `TableView.get_of` : nor does looking a row up by its number.
* `TableView.walk_of` : nor does walking over all rows.
* `Machine.numbered_of_rows` : the rows that are walked over are numbered in order.
-/

namespace AliasStubs.Machine

variable {data : ByteArray}

/-! ### Columns -/

/-- Splits a number of 32 bits into table and row. -/
def decode (k : CodedKind) (value : Nat) : Checked CodedIndex := do
  let bits ← tagBits k
  let mask ← sub (← Word.word32.shiftLeft 1 bits) 1
  let tag := value &&& mask
  match k.slots[tag]? with
  | some (some t) => do
    let row ← Word.word32.shiftRight value bits
    return ⟨t, row⟩
  | _ => throw (.failure (.malformed (.badTag tag k)))

/-- Reads an index of four bytes if `wide` holds, and of two otherwise. -/
def readIndex (data : ByteArray) (wide : Bool) : Stateful Nat Nat :=
  if wide then uint data 4 else uint data 2

/-- Reads the value of one column. -/
def readCell (info : Info) (data : ByteArray) : (c : Column) → Stateful Nat c.Cell
  | .word16 => uint data 2
  | .word32 => uint data 4
  | .string => readIndex data info.wideStrings
  | .guid => readIndex data info.wideGuids
  | .blob => readIndex data info.wideBlobs
  | .row t => do
    let width ← info.tableWidth t
    readIndex data (width == 4)
  | .coded k => do
    let width ← info.codedWidth k
    let value ← readIndex data (width == 4)
    decode k value

/-- Reads the values of a run of columns, from left to right. -/
def readCells (info : Info) (data : ByteArray) : (cs : List Column) → Stateful Nat (Cells cs)
  | [] => pure ()
  | c :: cs => do
    let cell ← readCell info data c
    let cells ← readCells info data cs
    return (cell, cells)

/-- Reads the row numbered `rid`. -/
def readRow (α : Type) [TableRow α] (info : Info) (data : ByteArray) (rid : Nat) :
    Stateful Nat α := do
  let cells ← readCells info data (TableRow.table α).columns
  return TableRow.ofCells rid cells

/-- **Splitting a number never faults.** -/
theorem decode_eq (k : CodedKind) (value : Nat) :
    decode k value = lift (CodedIndex.decode k value) := by
  have hreach : Word.word32.shiftLeft 1 k.tagBits = .ok k.tagCount := by
    cases k <;> rfl
  have hmask : sub k.tagCount 1 = .ok (k.tagCount - 1) :=
    sub_of_le (by cases k <;> decide)
  have htag : value &&& (k.tagCount - 1) = value % k.tagCount := by
    rw [CodedKind.tagCount, Nat.one_shiftLeft, Nat.and_two_pow_sub_one_eq_mod]
  have hrow : Word.word32.shiftRight value k.tagBits = .ok (value / k.tagCount) := by
    rw [Word.shiftRight_of_lt (by cases k <;> decide), CodedKind.tagCount, Nat.one_shiftLeft,
      Nat.shiftRight_eq_div_pow]
  simp only [decode, tagBits_eq, hreach, hmask, htag, ok_bind]
  rw [CodedIndex.decode]
  rcases k.slots[value % k.tagCount]? with _ | _ | t
  · rfl
  · rfl
  · simp only [hrow]
    rfl

section Reading

variable (hdata : Addressable data) (l : Layout)
include hdata

theorem readIndex_eq (wide : Bool) :
    readIndex data wide = liftReader (Bytes.uint data (Layout.indexWidth wide)) := by
  cases wide <;> exact uint_eq hdata _

/-- Whether an index is wide is seen by its width. -/
theorem readIndex_width_eq (wide : Bool) :
    readIndex data (Layout.indexWidth wide == 4) =
      liftReader (Bytes.uint data (Layout.indexWidth wide)) := by
  cases wide <;> exact uint_eq hdata _

theorem readCell_eq (c : Column) : readCell (Info.of l) data c = liftReader (c.read l data) := by
  cases c with
  | word16 | word32 => exact uint_eq hdata _
  | string | guid | blob => exact readIndex_eq hdata _
  | row t =>
      simp only [readCell, Info.tableWidth_of, Stateful.liftM_ok, pure_bind]
      exact readIndex_width_eq hdata _
  | coded k =>
      simp only [readCell, Info.codedWidth_of, Stateful.liftM_ok, pure_bind, decode_eq]
      refine bind_eq_liftReader_bind (readIndex_width_eq hdata _) fun value _ _ _ => ?_
      cases CodedIndex.decode k value <;> rfl

theorem readCells_eq (cs : List Column) :
    readCells (Info.of l) data cs = liftReader (Cells.read l data cs) := by
  induction cs with
  | nil => rfl
  | cons c cs ih =>
      refine bind_eq_liftReader_bind (readCell_eq hdata l c) fun cell _ _ _ => ?_
      have hrest := bind_eq_liftReader_bind (g := fun cells => pure (cell, cells)) ih
        fun _ _ _ _ => rfl
      exact congrFun hrest _

/-- **Reading a row never faults.** -/
theorem readRow_eq (α : Type) [TableRow α] (rid : Nat) :
    readRow α (Info.of l) data rid = liftReader (TableRow.read α l data rid) :=
  bind_eq_liftReader_bind (readCells_eq hdata l _) fun _ _ _ _ => rfl

end Reading

/-! ### Tables -/

/-- The bytes of a table with what is known of its rows. -/
structure TableView (α : Type) [TableRow α] where
  /-- The rows, one after the other. -/
  data : ByteArray
  /-- The number of rows. -/
  rowCount : Nat
  /-- The width of a row. -/
  rowSize : Nat
  /-- The layout of the table stream that the table belongs to. -/
  info : Info

namespace TableView

variable {α : Type} [TableRow α]

/-- Row `rid`, counted from one. -/
def get (t : TableView α) (rid : Nat) : Checked α :=
  if rid = 0 ∨ t.rowCount < rid then
    throw (.failure .outOfBounds)
  else do
    let position ← sub rid 1
    let offset ← Word.word64.mul position t.rowSize
    (readRow α t.info t.data rid).startingAt offset

/-- The number of rows that a walk still promises. -/
def remaining (t : TableView α) (c : Table.Cursor) : Checked Nat :=
  sub t.rowCount c.row

/-- Walks over the rows from a place on and puts them behind those in `done`. What is left is told
before every step, also after a row that cannot be read, which ends the walk. -/
def walk (t : TableView α) (c : Table.Cursor) (done : Array α) : (rounds : Nat) → Checked (Array α)
  | 0 => throw .exhausted
  | rounds + 1 => do
    let _ ← t.remaining c
    if t.rowCount ≤ c.row then
      return done
    let row ← Word.word32.add c.row 1
    match readRow α t.info t.data row c.offset with
    | .ok a offset => walk t ⟨row, offset⟩ (done.push a) rounds
    | .error stop offset => do
      let _ ← t.remaining ⟨t.rowCount, offset⟩
      throw stop

/-- What a machine keeps of a table. -/
def of (t : Table α) : TableView α where
  data := t.data
  rowCount := t.rowCount
  rowSize := t.rowSize
  info := .of t.layout

/-- Whether a machine can hold a table: its bytes, and its row count in 32 bits. -/
structure Holds (t : Table α) : Prop where
  data : Addressable t.data
  rowCount_lt : t.rowCount < UInt32.size

variable {t : Table α}

/-- **Looking a row up by its number never faults.** -/
theorem get_of (h : Holds t) (rid : Nat) : (of t).get rid = lift (t.get rid) := by
  rw [get, Table.get]
  change (if rid = 0 ∨ t.rowCount < rid then _ else _) = _
  by_cases hrange : rid = 0 ∨ t.rowCount < rid
  · rw [if_pos hrange, if_pos hrange]
    rfl
  · rw [if_neg hrange, if_neg hrange]
    obtain ⟨hpos, hle⟩ := not_or.mp hrange
    have hcount := h.rowCount_lt
    have hwidth : t.rowSize ≤ 36 := Info.rowSize_le t.layout _
    have hposition : sub rid 1 = .ok (rid - 1) := sub_of_le (Nat.one_le_iff_ne_zero.mpr hpos)
    have hoffset : Word.word64.mul (rid - 1) t.rowSize = .ok ((rid - 1) * t.rowSize) := by
      have hproduct : (rid - 1) * t.rowSize ≤ UInt32.size * 36 :=
        Nat.mul_le_mul (by omega) hwidth
      refine Word.mul_of_lt (Nat.lt_of_le_of_lt hproduct ?_)
      decide
    change (sub rid 1 >>= fun position => Word.word64.mul position t.rowSize >>= fun offset =>
      (readRow α (.of t.layout) t.data rid).startingAt offset) = _
    rw [hposition, ok_bind, hoffset, ok_bind, readRow_eq h.data,
      startingAt_liftReader]

/-- One round of the walk: it is over, or the next row is read. -/
theorem walk_succ (h : Holds t) {c : Table.Cursor} (hrow : c.row ≤ t.rowCount) (done : Array α)
    (rounds : Nat) :
    (of t).walk c done (rounds + 1) =
      if t.rowCount ≤ c.row then .ok done
      else match TableRow.read α t.layout t.data (c.row + 1) c.offset with
        | .ok a offset => (of t).walk ⟨c.row + 1, offset⟩ (done.push a) rounds
        | .error e _ => .error (.failure e) := by
  have hremaining : (of t).remaining c = .ok (t.rowCount - c.row) := sub_of_le hrow
  rw [walk, hremaining, ok_bind]
  change (if t.rowCount ≤ c.row then _ else _) = _
  by_cases hend : t.rowCount ≤ c.row
  · rw [if_pos hend, if_pos hend]
    rfl
  · have hcount := h.rowCount_lt
    rw [UInt32.size] at hcount
    have hnext : Word.word32.add c.row 1 = .ok (c.row + 1) :=
      Word.add_of_lt (by rw [Word.bound_word32]; omega)
    rw [if_neg hend, if_neg hend, hnext, ok_bind]
    change (match readRow α (.of t.layout) t.data (c.row + 1) c.offset with
      | .ok a offset => _
      | .error stop offset => _) = _
    rw [readRow_eq h.data, liftReader]
    cases TableRow.read α t.layout t.data (c.row + 1) c.offset with
    | ok a offset => rfl
    | error e offset =>
        have hended : (of t).remaining ⟨t.rowCount, offset⟩ = .ok (t.rowCount - t.rowCount) :=
          sub_of_le (Nat.le_refl _)
        change (of t).remaining ⟨t.rowCount, offset⟩ >>= _ = _
        rw [hended]
        rfl

/-- From any place on, the walk yields the rows that are left, or the failure of the first one that
cannot be read. -/
theorem walk_of_cursor (h : Holds t) {rounds : Nat} {c : Table.Cursor} {done : Array α}
    {results : Array (Except Failure α × Nat)} (hrow : c.row ≤ t.rowCount)
    (hrounds : t.rowCount - c.row < rounds) (hdone : results.mapM (·.1) = .ok done) :
    (of t).walk c done rounds = lift ((c.walk t results).mapM (·.1)) := by
  induction rounds generalizing c done results with
  | zero => exact absurd hrounds (Nat.not_lt_zero _)
  | succ rounds ih =>
      rw [walk_succ h hrow]
      by_cases hend : t.rowCount ≤ c.row
      · rw [if_pos hend, Table.Cursor.walk_of_le hend, hdone]
        rfl
      · have hlt : c.row < t.rowCount := Nat.not_le.mp hend
        rw [if_neg hend]
        cases hread : TableRow.read α t.layout t.data (c.row + 1) c.offset with
        | ok a offset =>
            rw [Table.Cursor.walk_of_read hlt hread]
            exact ih hlt (by dsimp only; omega) (Table.mapM_push hdone _ _)
        | error e offset =>
            rw [Table.Cursor.walk_of_error hlt hread, Table.mapM_push hdone]
            rfl

/-- **Walking over all rows never faults**, and never takes more rounds than there are rows and
one. -/
theorem walk_of (h : Holds t) :
    (of t).walk Table.Cursor.start #[] (t.rowCount + 1) = lift t.rows :=
  walk_of_cursor h (Nat.zero_le _) (Nat.lt_succ_of_le (Nat.sub_le _ _))
    (by simp [pure, Except.pure])

end TableView

/-! ### What is walked over -/

section Numbered

variable {α : Type} [TableRow α]

/-- Rows that are numbered in order, from one on, by numbers of 32 bits. -/
structure Numbered (rows : Array α) : Prop where
  size_lt : rows.size < UInt32.size
  exists_cells {i : Nat} {r : α} (h : rows[i]? = some r) :
    ∃ cells, r = TableRow.ofCells (i + 1) cells

theorem numbered_empty : Numbered (#[] : Array α) where
  size_lt := (by decide : 0 < UInt32.size)
  exists_cells h := nomatch h

/-- **The rows of a table are numbered in order.** -/
theorem numbered_of_rows {t : Table α} (ht : TableView.Holds t) {rows : Array α}
    (h : t.rows = .ok rows) : Numbered rows where
  size_lt := (Table.size_of_rows h).trans_lt ht.rowCount_lt
  exists_cells := Table.exists_cells_of_rows h

end Numbered

end AliasStubs.Machine
