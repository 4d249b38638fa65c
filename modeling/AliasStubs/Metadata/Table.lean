import AliasStubs.Metadata.Row

/-!
# Tables

A table is a run of rows of equal width. A row can be asked for by its number, or all rows can be
walked with a cursor that carries the offset of the next one. The walk ends with the first row
that cannot be read.

## Main definitions

* `Table` : the bytes of a table with its row count and layout.
* `Table.get` : the row of a given number.
* `Table.Cursor` : a walk over the rows, `Table.Cursor.next` its steps and
  `Table.Cursor.remaining` what it still promises.
* `Table.results` : everything the walk yields; `Table.rows` : all rows, if each can be read.
-/

namespace AliasStubs

/-- The bytes of a table with its row count and layout. -/
structure Table (α : Type) [TableRow α] where
  /-- The rows, one after the other. -/
  data : ByteArray
  /-- The number of rows. -/
  rowCount : Nat
  /-- The layout of the table stream that the table belongs to. -/
  layout : Layout

namespace Table

variable {α : Type} [TableRow α]

/-- The width of a row. -/
def rowSize (t : Table α) : Nat :=
  t.layout.rowSize (TableRow.table α)

/-- Row `rid`, counted from one. -/
def get (t : Table α) (rid : Nat) : Except Failure α :=
  if rid = 0 ∨ t.rowCount < rid then
    .error .outOfBounds
  else
    (TableRow.read α t.layout t.data rid).atOffset ((rid - 1) * t.rowSize)

/-- A place in the walk over the rows of a table. -/
structure Cursor where
  /-- How many rows have been passed. -/
  row : Nat
  /-- Where the next row starts. -/
  offset : Nat

namespace Cursor

/-- The start of the walk. -/
def start : Cursor :=
  ⟨0, 0⟩

/-- The number of rows that the walk still promises. -/
def remaining (c : Cursor) (t : Table α) : Nat :=
  t.rowCount - c.row

/-- The next row and the place behind it. A row that cannot be read is yielded as its failure and
ends the walk. -/
def next (c : Cursor) (t : Table α) : Option (Except Failure α × Cursor) :=
  if t.rowCount ≤ c.row then
    none
  else
    match TableRow.read α t.layout t.data (c.row + 1) c.offset with
    | .ok a offset => some (.ok a, ⟨c.row + 1, offset⟩)
    | .error e offset => some (.error e, ⟨t.rowCount, offset⟩)

/-- Every step lowers what the walk promises. -/
theorem remaining_next {c c' : Cursor} {t : Table α} {r : Except Failure α}
    (h : c.next t = some (r, c')) : c'.remaining t < c.remaining t := by
  unfold next at h
  split at h
  · cases h
  · split at h <;> cases h <;> simp only [remaining] <;> omega

/-- What the walk yields from here on, and what it promises after each step, put behind what it
has yielded before. -/
def walk (c : Cursor) (t : Table α) (done : Array (Except Failure α × Nat)) :
    Array (Except Failure α × Nat) :=
  match _h : c.next t with
  | none => done
  | some (r, c') => walk c' t (done.push (r, c'.remaining t))
  termination_by c.remaining t
  decreasing_by exact remaining_next _h

end Cursor

/-- Everything that the walk over the table yields, each result with what the walk promises after
it. -/
def results (t : Table α) : Array (Except Failure α × Nat) :=
  Cursor.start.walk t #[]

/-- All rows of the table, or the failure of the first that cannot be read. -/
def rows (t : Table α) : Except Failure (Array α) :=
  t.results.mapM (·.1)

end Table

end AliasStubs
