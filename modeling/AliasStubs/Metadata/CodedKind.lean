import AliasStubs.Metadata.TableId

/-!
# Kinds of coded index

A coded index packs a table tag into its low bits and a row into the rest, so that one column
can point into any of several tables. Each kind lists the tables its tags select; some tags are
reserved and select none.

## Main definitions

* `CodedKind` : the thirteen kinds, `CodedKind.slots` the tables behind their tags.
* `CodedKind.tagBits` : the number of low bits that hold the tag, `CodedKind.tagCount` the number of
  tags that they can hold.
-/

namespace AliasStubs

/-- The kinds of coded index. -/
inductive CodedKind
  | typeDefOrRef
  | hasConstant
  | hasCustomAttribute
  | hasFieldMarshal
  | hasDeclSecurity
  | memberRefParent
  | hasSemantics
  | methodDefOrRef
  | memberForwarded
  | implementation
  | customAttributeType
  | resolutionScope
  | typeOrMethodDef
  deriving DecidableEq, Repr, Inhabited

namespace CodedKind

/-- Every kind of coded index. -/
def all : List CodedKind :=
  [.typeDefOrRef, .hasConstant, .hasCustomAttribute, .hasFieldMarshal, .hasDeclSecurity,
   .memberRefParent, .hasSemantics, .methodDefOrRef, .memberForwarded, .implementation,
   .customAttributeType, .resolutionScope, .typeOrMethodDef]

/-- The standard's name of a kind. -/
def name : CodedKind → String
  | typeDefOrRef => "TypeDefOrRef"
  | hasConstant => "HasConstant"
  | hasCustomAttribute => "HasCustomAttribute"
  | hasFieldMarshal => "HasFieldMarshal"
  | hasDeclSecurity => "HasDeclSecurity"
  | memberRefParent => "MemberRefParent"
  | hasSemantics => "HasSemantics"
  | methodDefOrRef => "MethodDefOrRef"
  | memberForwarded => "MemberForwarded"
  | implementation => "Implementation"
  | customAttributeType => "CustomAttributeType"
  | resolutionScope => "ResolutionScope"
  | typeOrMethodDef => "TypeOrMethodDef"

/-- The kind of a given name. -/
def ofName? (s : String) : Option CodedKind :=
  all.find? (·.name == s)

/-- The tables behind the tags `0, 1, 2, …` of a kind; `none` marks a reserved tag. -/
def slots : CodedKind → List (Option TableId)
  | typeDefOrRef => [some .typeDef, some .typeRef, some .typeSpec]
  | hasConstant => [some .field, some .param, some .property]
  | hasCustomAttribute =>
    [some .methodDef, some .field, some .typeRef, some .typeDef, some .param,
     some .interfaceImpl, some .memberRef, some .module, some .declSecurity, some .property,
     some .event, some .standAloneSig, some .moduleRef, some .typeSpec, some .assembly,
     some .assemblyRef, some .file, some .exportedType, some .manifestResource,
     some .genericParam, some .genericParamConstraint, some .methodSpec]
  | hasFieldMarshal => [some .field, some .param]
  | hasDeclSecurity => [some .typeDef, some .methodDef, some .assembly]
  | memberRefParent =>
    [some .typeDef, some .typeRef, some .moduleRef, some .methodDef, some .typeSpec]
  | hasSemantics => [some .event, some .property]
  | methodDefOrRef => [some .methodDef, some .memberRef]
  | memberForwarded => [some .field, some .methodDef]
  | implementation => [some .file, some .assemblyRef, some .exportedType]
  | customAttributeType => [none, none, some .methodDef, some .memberRef, none]
  | resolutionScope => [some .module, some .moduleRef, some .assemblyRef, some .typeRef]
  | typeOrMethodDef => [some .typeDef, some .methodDef]

/-- The tables a kind can select. -/
def tables (k : CodedKind) : List TableId :=
  k.slots.filterMap id

/-- The number of low bits that hold the tag: the fewest that give every slot a tag of its own. -/
def tagBits (k : CodedKind) : Nat :=
  (k.slots.length - 1).log2 + 1

/-- The number of tags that the tag bits can hold. -/
def tagCount (k : CodedKind) : Nat :=
  1 <<< k.tagBits

/-- The tag bits have room for every slot. -/
theorem length_slots_le (k : CodedKind) : k.slots.length ≤ k.tagCount := by
  cases k <;> decide

end CodedKind

end AliasStubs
