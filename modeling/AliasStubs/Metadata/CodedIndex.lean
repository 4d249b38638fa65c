import AliasStubs.Metadata.Layout

/-!
# Coded indexes

A coded index of a given kind is a number whose low bits are a tag and whose other bits are a row.
The tag selects one of the kind's tables; a reserved tag, or one past the last table, is malformed.

## Main definitions

* `CodedIndex` : a row of one of several tables.
* `CodedIndex.decode` : splits a number into table and row; `CodedIndex.read` reads that number.
* `CodedIndex.token` : the token of the row.
-/

namespace AliasStubs

/-- A row of one of several tables; row zero references nothing. -/
structure CodedIndex where
  /-- The table that the tag selects. -/
  table : TableId
  /-- The 1-based row. -/
  row : Nat
  deriving DecidableEq, Repr, Hashable, Inhabited

namespace CodedIndex

/-- Splits a number into the table its low bits select and the row in its other bits. -/
def decode (k : CodedKind) (value : Nat) : Except Failure CodedIndex :=
  let tag := value % k.tagCount
  match k.slots[tag]? with
  | some (some t) => .ok ⟨t, value / k.tagCount⟩
  | _ => .error (.malformed (.badTag tag k))

/-- Reads a coded index in the width that the layout gives its kind. A bad tag is found only after
the number has been read. -/
def read (l : Layout) (data : ByteArray) (k : CodedKind) : Reader CodedIndex := do
  let value ← Bytes.uint data (l.codedWidth k)
  match decode k value with
  | .ok index => return index
  | .error e => throw e

/-- The token of the row. -/
def token (i : CodedIndex) : Token :=
  i.table.token i.row

/-- Whether the index references nothing. -/
def isNull (i : CodedIndex) : Bool :=
  i.row == 0

end CodedIndex

end AliasStubs
