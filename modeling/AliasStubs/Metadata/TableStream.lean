import AliasStubs.Metadata.Table

/-!
# Table streams

A table stream is a header of 24 bytes, the row counts of the tables that are present, and the
tables themselves, back to back in ascending order of number.

## Main definitions

* `TableStream` : the header, the layout and the bytes of every table that has rows.
* `TableStream.read` : reads a table stream.
* `TableStream.table?` : the table of a type of rows.
-/

namespace AliasStubs

/-- A table stream. -/
structure TableStream where
  /-- The major version of the tables' schema. -/
  majorVersion : Nat
  /-- The minor version of the tables' schema. -/
  minorVersion : Nat
  /-- The mask of the tables that are present. -/
  valid : Nat
  /-- The mask of the tables that are sorted. -/
  sorted : Nat
  /-- The row counts and widths. -/
  layout : Layout
  /-- The bytes of every table that has rows, in ascending order of number. -/
  tables : List (TableId × ByteArray)

namespace TableStream

/-- The bytes of those tables among `ts` that have rows, the first of them starting at `offset`. -/
def locate (data : ByteArray) (l : Layout) :
    (ts : List TableId) → (offset : Nat) → Except Failure (List (TableId × ByteArray))
  | [], _ => .ok []
  | t :: ts, offset =>
    if l.rowCount t = 0 then
      locate data l ts offset
    else do
      let size := l.rowCount t * l.rowSize t
      let bytes ← Bytes.slice data offset size
      let rest ← locate data l ts (offset + size)
      return (t, bytes) :: rest

/-- Reads the row counts that follow the header, and the offset of the first table. The flag
`0x40` announces four more bytes before it. -/
def readLayout (data : ByteArray) (valid heapFlags : Nat) : Except Failure (Layout × Nat) :=
  match Layout.read data valid heapFlags 24 with
  | .ok l offset => .ok (l, if heapFlags.testBit 6 then offset + 4 else offset)
  | .error e _ => .error e

/-- Reads a table stream. -/
def read (data : ByteArray) : Except Failure TableStream := do
  if data.size < 24 then
    throw .outOfBounds
  let heapFlags ← Bytes.uintAt data 1 6
  let valid ← Bytes.uintAt data 8 8
  if valid = 0 then
    throw (.malformed .noTables)
  let (layout, offset) ← readLayout data valid heapFlags
  let tables ← locate data layout TableId.all offset
  let majorVersion ← Bytes.uintAt data 1 4
  let minorVersion ← Bytes.uintAt data 1 5
  let sorted ← Bytes.uintAt data 8 16
  return { majorVersion, minorVersion, valid, sorted, layout, tables }

/-- The number of tables that the stream marks as present. -/
def tableCount (s : TableStream) : Nat :=
  (TableId.all.filter fun t => s.valid.testBit t.number).length

/-- The bytes of a table, if it has rows. -/
def bytes? (s : TableStream) (t : TableId) : Option ByteArray :=
  s.tables.lookup t

/-- The table of a type of rows, if it has any. -/
def table? (s : TableStream) (α : Type) [TableRow α] : Option (Table α) :=
  (s.bytes? (TableRow.table α)).map fun data =>
    { data, rowCount := s.layout.rowCount (TableRow.table α), layout := s.layout }

/-- All rows of a table, none if it is absent. -/
def rows (s : TableStream) (α : Type) [TableRow α] : Except Failure (Array α) :=
  match s.table? α with
  | some t => t.rows
  | none => .ok #[]

/-- Row `rid` of a table, if the table exists and the row can be read. -/
def row? (s : TableStream) (α : Type) [TableRow α] (rid : Nat) : Option α :=
  (s.table? α).bind fun t => (t.get rid).toOption

end TableStream

end AliasStubs
