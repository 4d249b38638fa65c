import AliasStubs.Metadata.Token

/-!
# Metadata tables

The tables that a table stream may hold. The standard numbers them without gaps, in the order
of the constructors below, and stores those that are present in ascending order of number.

## Main definitions

* `TableId` : the tables, `TableId.number` their numbers and `TableId.all` their list in order.
* `TableId.name` : the standard's name of a table.
* `TableId.token` : the token of a row.
* `TableId.number_lt_count`, `TableId.all_getElem?_number` : the list holds each table at its
  number.
-/

namespace AliasStubs

/-- The metadata tables, in the order of their numbers. -/
inductive TableId
  | module
  | typeRef
  | typeDef
  | fieldPtr
  | field
  | methodPtr
  | methodDef
  | paramPtr
  | param
  | interfaceImpl
  | memberRef
  | constant
  | customAttribute
  | fieldMarshal
  | declSecurity
  | classLayout
  | fieldLayout
  | standAloneSig
  | eventMap
  | eventPtr
  | event
  | propertyMap
  | propertyPtr
  | property
  | methodSemantics
  | methodImpl
  | moduleRef
  | typeSpec
  | implMap
  | fieldRva
  | encLog
  | encMap
  | assembly
  | assemblyProcessor
  | assemblyOs
  | assemblyRef
  | assemblyRefProcessor
  | assemblyRefOs
  | file
  | exportedType
  | manifestResource
  | nestedClass
  | genericParam
  | methodSpec
  | genericParamConstraint
  deriving DecidableEq, Repr, Hashable, Inhabited

namespace TableId

/-- The number of a table, counted from zero. -/
def number (t : TableId) : Nat :=
  t.ctorIdx

/-- Every table, in ascending order of number. -/
def all : List TableId :=
  [.module, .typeRef, .typeDef, .fieldPtr, .field, .methodPtr, .methodDef, .paramPtr, .param,
   .interfaceImpl, .memberRef, .constant, .customAttribute, .fieldMarshal, .declSecurity,
   .classLayout, .fieldLayout, .standAloneSig, .eventMap, .eventPtr, .event, .propertyMap,
   .propertyPtr, .property, .methodSemantics, .methodImpl, .moduleRef, .typeSpec, .implMap,
   .fieldRva, .encLog, .encMap, .assembly, .assemblyProcessor, .assemblyOs, .assemblyRef,
   .assemblyRefProcessor, .assemblyRefOs, .file, .exportedType, .manifestResource, .nestedClass,
   .genericParam, .methodSpec, .genericParamConstraint]

/-- How many tables the standard numbers. -/
def count : Nat :=
  all.length

/-- The standard's name of a table. -/
def name : TableId → String
  | .module => "Module"
  | .typeRef => "TypeRef"
  | .typeDef => "TypeDef"
  | .fieldPtr => "FieldPtr"
  | .field => "Field"
  | .methodPtr => "MethodPtr"
  | .methodDef => "MethodDef"
  | .paramPtr => "ParamPtr"
  | .param => "Param"
  | .interfaceImpl => "InterfaceImpl"
  | .memberRef => "MemberRef"
  | .constant => "Constant"
  | .customAttribute => "CustomAttribute"
  | .fieldMarshal => "FieldMarshal"
  | .declSecurity => "DeclSecurity"
  | .classLayout => "ClassLayout"
  | .fieldLayout => "FieldLayout"
  | .standAloneSig => "StandAloneSig"
  | .eventMap => "EventMap"
  | .eventPtr => "EventPtr"
  | .event => "Event"
  | .propertyMap => "PropertyMap"
  | .propertyPtr => "PropertyPtr"
  | .property => "Property"
  | .methodSemantics => "MethodSemantics"
  | .methodImpl => "MethodImpl"
  | .moduleRef => "ModuleRef"
  | .typeSpec => "TypeSpec"
  | .implMap => "ImplMap"
  | .fieldRva => "FieldRVA"
  | .encLog => "EncLog"
  | .encMap => "EncMap"
  | .assembly => "Assembly"
  | .assemblyProcessor => "AssemblyProcessor"
  | .assemblyOs => "AssemblyOS"
  | .assemblyRef => "AssemblyRef"
  | .assemblyRefProcessor => "AssemblyRefProcessor"
  | .assemblyRefOs => "AssemblyRefOS"
  | .file => "File"
  | .exportedType => "ExportedType"
  | .manifestResource => "ManifestResource"
  | .nestedClass => "NestedClass"
  | .genericParam => "GenericParam"
  | .methodSpec => "MethodSpec"
  | .genericParamConstraint => "GenericParamConstraint"

/-- The table of a given name. -/
def ofName? (s : String) : Option TableId :=
  all.find? (·.name == s)

/-- The token of `row` in table `t`. A row that does not fit into 24 bits spills into the bits of
the table's number. -/
def token (t : TableId) (row : Nat) : Token :=
  ⟨(t.number <<< 24) ||| row⟩

theorem number_lt_count (t : TableId) : t.number < count := by
  cases t <;> decide

/-- The list of all tables holds each one at its number. -/
@[simp] theorem all_getElem?_number (t : TableId) : all[t.number]? = some t := by
  cases t <;> rfl

theorem mem_all (t : TableId) : t ∈ all :=
  List.mem_of_getElem? (all_getElem?_number t)

end TableId

end AliasStubs
