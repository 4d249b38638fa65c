import AliasStubs.Metadata.CodedKind

/-!
# The columns of the tables

A row is a fixed sequence of columns, given here for every table. A column is either a number of
fixed width or an index whose width depends on how much it has to reach: into a heap, into one
table, or, as a coded index, into one of several tables.

## Main definitions

* `Column` : the kinds of column.
* `TableId.columns` : the columns of each table, in the order in which a row stores them.
-/

namespace AliasStubs

/-- The kinds of column. -/
inductive Column
  /-- A number of two bytes. -/
  | word16
  /-- A number of four bytes. -/
  | word32
  /-- An index into the identifier heap. -/
  | string
  /-- An index into the heap of globally unique identifiers. -/
  | guid
  /-- An index into the blob heap. -/
  | blob
  /-- A row of one table. -/
  | row (table : TableId)
  /-- A row of one of several tables. -/
  | coded (kind : CodedKind)
  deriving DecidableEq, Repr

open Column in
/-- The columns of each table, in the order in which a row stores them. -/
def TableId.columns : TableId → List Column
  | module => [word16, string, guid, guid, guid]
  | typeRef => [coded .resolutionScope, string, string]
  | typeDef => [word32, string, string, coded .typeDefOrRef, row field, row methodDef]
  | fieldPtr => [row field]
  | field => [word16, string, blob]
  | methodPtr => [row methodDef]
  | methodDef => [word32, word16, word16, string, blob, row param]
  | paramPtr => [row param]
  | param => [word16, word16, string]
  | interfaceImpl => [row typeDef, coded .typeDefOrRef]
  | memberRef => [coded .memberRefParent, string, blob]
  | constant => [word16, coded .hasConstant, blob]
  | customAttribute => [coded .hasCustomAttribute, coded .customAttributeType, blob]
  | fieldMarshal => [coded .hasFieldMarshal, blob]
  | declSecurity => [word16, coded .hasDeclSecurity, blob]
  | classLayout => [word16, word32, row typeDef]
  | fieldLayout => [word32, row field]
  | standAloneSig => [blob]
  | eventMap => [row typeDef, row event]
  | eventPtr => [row event]
  | event => [word16, string, coded .typeDefOrRef]
  | propertyMap => [row typeDef, row property]
  | propertyPtr => [row property]
  | property => [word16, string, blob]
  | methodSemantics => [word16, row methodDef, coded .hasSemantics]
  | methodImpl => [row typeDef, coded .methodDefOrRef, coded .methodDefOrRef]
  | moduleRef => [string]
  | typeSpec => [blob]
  | implMap => [word16, coded .memberForwarded, string, row moduleRef]
  | fieldRva => [word32, row field]
  | encLog => [word32, word32]
  | encMap => [word32]
  | assembly => [word32, word16, word16, word16, word16, word32, blob, string, string]
  | assemblyProcessor => [word32]
  | assemblyOs => [word32, word32, word32]
  | assemblyRef => [word16, word16, word16, word16, word32, blob, string, string, blob]
  | assemblyRefProcessor => [word32, row assemblyRef]
  | assemblyRefOs => [word32, word32, word32, row assemblyRef]
  | file => [word32, string, blob]
  | exportedType => [word32, word32, string, string, coded .implementation]
  | manifestResource => [word32, word32, string, coded .implementation]
  | nestedClass => [row typeDef, row typeDef]
  | genericParam => [word16, word16, coded .typeOrMethodDef, string]
  | methodSpec => [coded .methodDefOrRef, blob]
  | genericParamConstraint => [row genericParam, coded .typeDefOrRef]

end AliasStubs
