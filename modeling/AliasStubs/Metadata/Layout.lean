import AliasStubs.Bytes
import AliasStubs.Metadata.Column

/-!
# The layout of a table stream

How wide an index is follows from how much it has to reach. Heap indexes are widened by flags of
the stream, an index into a table once the table has more than 65535 rows, and a coded index once
the longest table it can select no longer fits beside its tag. The width of a row is the sum of
the widths of its columns.

## Main definitions

* `Layout` : the row counts and heap flags that fix every width.
* `Layout.columnWidth` and `Layout.rowSize` : the widths of columns and rows.
* `Layout.read` : reads the row counts of a table stream.
-/

namespace AliasStubs

/-- The row counts and heap flags of one table stream. -/
structure Layout where
  /-- The number of rows of each table, zero for a table that is absent. -/
  rowCount : TableId → Nat
  /-- Whether indexes into the identifier heap take four bytes. -/
  wideStrings : Bool
  /-- Whether indexes into the heap of globally unique identifiers take four bytes. -/
  wideGuids : Bool
  /-- Whether indexes into the blob heap take four bytes. -/
  wideBlobs : Bool

namespace Layout

/-- The layout with the given row counts, listed by table number; a table past the end of the list
has no rows. -/
def ofCounts (counts : List Nat) (wideStrings wideGuids wideBlobs : Bool) : Layout :=
  let table := counts.toArray
  { rowCount := fun t => table.getD t.number 0
    wideStrings, wideGuids, wideBlobs }

/-- The width of an index that is widened if `wide` holds. -/
def indexWidth (wide : Bool) : Nat :=
  if wide then 4 else 2

/-- The width of an index into the identifier heap. -/
def stringWidth (l : Layout) : Nat :=
  indexWidth l.wideStrings

/-- The width of an index into the heap of globally unique identifiers. -/
def guidWidth (l : Layout) : Nat :=
  indexWidth l.wideGuids

/-- The width of an index into the blob heap. -/
def blobWidth (l : Layout) : Nat :=
  indexWidth l.wideBlobs

/-- The width of an index into table `t`. -/
def tableWidth (l : Layout) (t : TableId) : Nat :=
  indexWidth (65535 < l.rowCount t)

/-- The rows of the longest table that a coded index can select. -/
def longest (l : Layout) (k : CodedKind) : Nat :=
  k.tables.foldl (fun n t => max n (l.rowCount t)) 0

/-- The width of a coded index. -/
def codedWidth (l : Layout) (k : CodedKind) : Nat :=
  indexWidth (1 <<< (16 - k.tagBits) ≤ l.longest k)

/-- The width of a column. -/
def columnWidth (l : Layout) : Column → Nat
  | .word16 => 2
  | .word32 => 4
  | .string => l.stringWidth
  | .guid => l.guidWidth
  | .blob => l.blobWidth
  | .row t => l.tableWidth t
  | .coded k => l.codedWidth k

/-- The width of a run of columns. -/
def columnsWidth (l : Layout) (cs : List Column) : Nat :=
  cs.foldr (fun c width => l.columnWidth c + width) 0

/-- The width of a row of table `t`. -/
def rowSize (l : Layout) (t : TableId) : Nat :=
  l.columnsWidth t.columns

/-- Reads the row counts of the tables that the mask `valid` marks as present, in ascending order
of table number. The low three bits of `heapFlags` widen the heap indexes. A mask that marks a
table without a number is not supported. -/
def read (data : ByteArray) (valid heapFlags : Nat) : Reader Layout := do
  if valid >>> TableId.count ≠ 0 then
    throw .notSupported
  let counts ← TableId.all.mapM fun t =>
    if valid.testBit t.number then Bytes.uint data 4 else pure 0
  return ofCounts counts (heapFlags.testBit 0) (heapFlags.testBit 1) (heapFlags.testBit 2)

/-- Every column takes at most four bytes. -/
theorem columnWidth_le (l : Layout) (c : Column) : l.columnWidth c ≤ 4 := by
  have h (b : Bool) : indexWidth b ≤ 4 := by cases b <;> decide
  cases c with
  | word16 | word32 => simp [columnWidth]
  | string | guid | blob | row | coded => exact h _

end Layout

end AliasStubs
