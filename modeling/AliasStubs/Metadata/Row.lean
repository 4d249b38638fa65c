import AliasStubs.Metadata.CodedIndex

/-!
# Rows

A row is read column by column into `Cells`, whose type follows the columns: a coded index for a
coded column and a number for any other. Nine tables are decoded further, into a structure with a
named field per column.

## Main definitions

* `Cells` : the values of a run of columns, `Cells.read` reads them.
* `TableRow` : a type of decoded rows, with the table it belongs to.
* `TypeRefRow`, `TypeDefRow`, `MethodDefRow`, `ParamRow`, `MemberRefRow`, `CustomAttributeRow`,
  `TypeSpecRow`, `NestedClassRow`, `GenericParamRow` : the decoded rows.
-/

namespace AliasStubs

/-- The value of a column. -/
abbrev Column.Cell : Column → Type
  | .coded _ => CodedIndex
  | _ => Nat

/-- The values of a run of columns. -/
abbrev Cells : List Column → Type
  | [] => Unit
  | c :: cs => c.Cell × Cells cs

/-- Reads the value of one column. -/
def Column.read (l : Layout) (data : ByteArray) : (c : Column) → Reader c.Cell
  | .word16 => Bytes.uint data 2
  | .word32 => Bytes.uint data 4
  | .string => Bytes.uint data l.stringWidth
  | .guid => Bytes.uint data l.guidWidth
  | .blob => Bytes.uint data l.blobWidth
  | .row t => Bytes.uint data (l.tableWidth t)
  | .coded k => CodedIndex.read l data k

/-- Reads the values of a run of columns, from left to right. -/
def Cells.read (l : Layout) (data : ByteArray) : (cs : List Column) → Reader (Cells cs)
  | [] => pure ()
  | c :: cs => do
    let cell ← c.read l data
    let cells ← Cells.read l data cs
    return (cell, cells)

/-- A type of decoded rows. -/
class TableRow (α : Type) where
  /-- The table whose rows these are. -/
  table : TableId
  /-- The row with a given number and given values. -/
  ofCells : (rid : Nat) → Cells table.columns → α

/-- Reads the row numbered `rid`. -/
def TableRow.read (α : Type) [TableRow α] (l : Layout) (data : ByteArray) (rid : Nat) :
    Reader α := do
  let cells ← Cells.read l data (table α).columns
  return ofCells rid cells

/-- A reference to a type of another module, or to one nested in such a type. -/
structure TypeRefRow where
  /-- The row's own number. -/
  rid : Nat
  /-- Where the type is found; another type reference if the type is nested. -/
  resolutionScope : CodedIndex
  /-- The type's name, in the identifier heap. -/
  typeName : Nat
  /-- The type's namespace, in the identifier heap. -/
  typeNamespace : Nat
  deriving DecidableEq, Repr

instance : TableRow TypeRefRow where
  table := .typeRef
  ofCells rid := fun (resolutionScope, typeName, typeNamespace, _) =>
    { rid, resolutionScope, typeName, typeNamespace }

/-- The definition of a type. -/
structure TypeDefRow where
  /-- The row's own number. -/
  rid : Nat
  /-- The type's attributes. -/
  flags : Nat
  /-- The type's name, in the identifier heap. -/
  typeName : Nat
  /-- The type's namespace, in the identifier heap. -/
  typeNamespace : Nat
  /-- The type's base. -/
  extends_ : CodedIndex
  /-- The first row of the type's run of fields. -/
  fieldList : Nat
  /-- The first row of the type's run of methods. -/
  methodList : Nat
  deriving DecidableEq, Repr

instance : TableRow TypeDefRow where
  table := .typeDef
  ofCells rid := fun (flags, typeName, typeNamespace, extends_, fieldList, methodList, _) =>
    { rid, flags, typeName, typeNamespace, extends_, fieldList, methodList }

/-- The definition of a method. -/
structure MethodDefRow where
  /-- The row's own number. -/
  rid : Nat
  /-- The relative address of the method's body, zero if it has none. -/
  rva : Nat
  /-- How the method is implemented. -/
  implFlags : Nat
  /-- The method's attributes. -/
  flags : Nat
  /-- The method's name, in the identifier heap. -/
  name : Nat
  /-- The method's signature, in the blob heap. -/
  signature : Nat
  /-- The first row of the method's run of parameters. -/
  paramList : Nat
  deriving DecidableEq, Repr

instance : TableRow MethodDefRow where
  table := .methodDef
  ofCells rid := fun (rva, implFlags, flags, name, signature, paramList, _) =>
    { rid, rva, implFlags, flags, name, signature, paramList }

/-- A declared parameter of a method. -/
structure ParamRow where
  /-- The row's own number. -/
  rid : Nat
  /-- The parameter's attributes. -/
  flags : Nat
  /-- The parameter's position, counted from one; zero stands for the return value. -/
  sequence : Nat
  /-- The parameter's name, in the identifier heap. -/
  name : Nat
  deriving DecidableEq, Repr

instance : TableRow ParamRow where
  table := .param
  ofCells rid := fun (flags, sequence, name, _) => { rid, flags, sequence, name }

/-- A reference to a member of a type. -/
structure MemberRefRow where
  /-- The row's own number. -/
  rid : Nat
  /-- What the member belongs to. -/
  parent : CodedIndex
  /-- The member's name, in the identifier heap. -/
  name : Nat
  /-- The member's signature, in the blob heap. -/
  signature : Nat
  deriving DecidableEq, Repr

instance : TableRow MemberRefRow where
  table := .memberRef
  ofCells rid := fun (parent, name, signature, _) => { rid, parent, name, signature }

/-- An attribute applied to something. -/
structure CustomAttributeRow where
  /-- The row's own number. -/
  rid : Nat
  /-- What the attribute is applied to. -/
  parent : CodedIndex
  /-- The attribute's constructor. -/
  constructor : CodedIndex
  /-- The constructor's arguments, in the blob heap. -/
  value : Nat
  deriving DecidableEq, Repr

instance : TableRow CustomAttributeRow where
  table := .customAttribute
  ofCells rid := fun (parent, constructor, value, _) => { rid, parent, constructor, value }

/-- A type given by its signature. -/
structure TypeSpecRow where
  /-- The row's own number. -/
  rid : Nat
  /-- The type's signature, in the blob heap. -/
  signature : Nat
  deriving DecidableEq, Repr

instance : TableRow TypeSpecRow where
  table := .typeSpec
  ofCells rid := fun (signature, _) => { rid, signature }

/-- The nesting of one type in another. -/
structure NestedClassRow where
  /-- The row's own number. -/
  rid : Nat
  /-- The definition of the nested type. -/
  nestedClass : Nat
  /-- The definition of the type around it. -/
  enclosingClass : Nat
  deriving DecidableEq, Repr

instance : TableRow NestedClassRow where
  table := .nestedClass
  ofCells rid := fun (nestedClass, enclosingClass, _) => { rid, nestedClass, enclosingClass }

/-- A generic parameter of a type or method. -/
structure GenericParamRow where
  /-- The row's own number. -/
  rid : Nat
  /-- The parameter's position, counted from zero. -/
  number : Nat
  /-- The parameter's attributes. -/
  flags : Nat
  /-- The type or method that declares the parameter. -/
  owner : CodedIndex
  /-- The parameter's name, in the identifier heap. -/
  name : Nat
  deriving DecidableEq, Repr

instance : TableRow GenericParamRow where
  table := .genericParam
  ofCells rid := fun (number, flags, owner, name, _) => { rid, number, flags, owner, name }

end AliasStubs
