import AliasStubs.Assembly.Grouping
import AliasStubs.Metadata.Opened
import AliasStubs.Types.Name

/-!
# The names behind tokens

A token names a type by a row of the type definitions or of the type references. Nested types are
chained: a definition to its enclosing class, which a table of its own records, and a reference to
the reference that is its scope. A chain is followed within a **budget** of levels, so that a chain
that runs in a circle is refused.

## Main definitions

* `TypeIndex` : the type definitions of metadata and which of them enclose which.
* `TypeIndex.nameWithin` : the name behind a token, within a budget of levels.
* `TypeIndex.name` : the name behind a token.
-/

namespace AliasStubs

/-- The most levels that are followed to find a name or a type. -/
def maxLevels : Nat := 50

/-- The type definitions of metadata and which of them enclose which. -/
structure TypeIndex where
  /-- The metadata. -/
  metadata : Metadata
  /-- The type definitions, in order. -/
  definitions : Array TypeDefRow
  /-- The rows of the enclosing classes, under the rows of the nested ones. -/
  enclosing : Grouping Nat Nat

namespace TypeIndex

/-- The index of the type definitions of metadata. -/
def build (m : Metadata) (definitions : Array TypeDefRow) : Except Failure TypeIndex := do
  let nested ← m.tables.rows NestedClassRow
  return {
    metadata := m
    definitions
    enclosing := .ofList (nested.toList.map fun r => (r.nestedClass, r.enclosingClass)) }

/-- The type definition in a row. -/
def definition? (x : TypeIndex) (row : Nat) : Option TypeDefRow :=
  if row = 0 then none else x.definitions[row - 1]?

/-- The row of the class that encloses a type definition: the last one recorded. -/
def enclosing? (x : TypeIndex) (row : Nat) : Option Nat :=
  x.enclosing.last? row

/-- The token of the type reference in which the type reference `r` is nested, if it is. -/
def scope? (r : TypeRefRow) : Option Token :=
  if r.resolutionScope.table = .typeRef ∧ r.resolutionScope.row ≠ 0 then
    some r.resolutionScope.token
  else
    none

/-- The name of a type within its declaring type, or within its namespace if it has none. -/
def qualify (x : TypeIndex) (declaring? : Option (Except Failure TypeName)) (ns : Nat)
    (name : String) : Except Failure TypeName :=
  match declaring? with
  | some declaring => declaring.map (·.nest name)
  | none => (x.metadata.string ns).map (.topLevel · name)

/-- The name behind a token. Every type of a chain takes one level of the budget. -/
def nameWithin (x : TypeIndex) : (levels : Nat) → Token → Except Failure TypeName
  | 0, _ => .error (.recursionLimit maxLevels)
  | levels + 1, t =>
    if t.table = TableId.typeDef.number then
      match x.definition? t.row with
      | none => .error (.malformed (.badTypeDef t))
      | some d => do
        let name ← x.metadata.string d.typeName
        let declaring? := (x.enclosing? d.rid).map fun outer =>
          nameWithin x levels (TableId.typeDef.token outer)
        x.qualify declaring? d.typeNamespace name
    else if t.table = TableId.typeRef.number then
      match x.metadata.tables.row? TypeRefRow t.row with
      | none => .error (.malformed (.badTypeRef t))
      | some r => do
        let name ← x.metadata.string r.typeName
        let declaring? := (scope? r).map (nameWithin x levels)
        x.qualify declaring? r.typeNamespace name
    else
      .error (.malformed (.notAType t))

/-- The name behind a token. -/
def name (x : TypeIndex) (t : Token) : Except Failure TypeName :=
  x.nameWithin maxLevels t

end TypeIndex

end AliasStubs
