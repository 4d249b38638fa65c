import AliasStubs.Assembly.Resolution
import AliasStubs.Assembly.Run
import AliasStubs.Types.Definition

/-!
# The types that metadata define

The tables are joined to the types that they define: methods belong to types by runs of rows, and
parameters to methods; generic parameters and custom attributes name their owners. Everything is
read in a fixed order, so that of several failures always the same one is reported.

## Main definitions

* `methodOwners` : which type each method belongs to.
* `GenericNames` : the names of the generic parameters of types and methods.
* `readAttributes` : the attributes of each method.
* `Introspection` : everything that is joined, `Introspection.method` one method of it.
* `Metadata.types` : the types that metadata define.
-/

namespace AliasStubs

/-! ### Methods and their types -/

/-- The run of the methods of the `i`-th type. -/
def methodRun (types : Array TypeDefRow) (methodCount i : Nat) : Run :=
  .ofOwner types (·.methodList) methodCount i

/-- The row of the type that each method belongs to, zero if it belongs to none. Where the runs of
several types overlap, the last of them counts. -/
def methodOwners (types : Array TypeDefRow) (methodCount : Nat) : Array Nat :=
  types.size.fold
    (fun i _ owners =>
      (methodRun types methodCount i).positions.foldl
        (fun owners p => owners.setIfInBounds p (i + 1)) owners)
    (.replicate methodCount 0)

/-- The row of the type that the method in a row belongs to, if there are such a method and such a
type. -/
def owner? (owners : Array Nat) (row : Nat) : Option Nat :=
  if row = 0 then none else owners[row - 1]?.filter (· ≠ 0)

/-! ### Generic parameters -/

/-- The generic parameters of types and methods, each with its number, under their owners. -/
abbrev GenericNames := Grouping CodedIndex (Nat × String)

namespace GenericNames

/-- Reads the generic parameters of all types and methods. -/
def read (m : Metadata) : Except Failure GenericNames := do
  let rows ← m.tables.rows GenericParamRow
  let named ← rows.toList.mapM fun r => do
    return (r.owner, (r.number, ← m.string r.name))
  return .ofList named

/-- The names of the generic parameters of an owner, in the order of their numbers. -/
def names (g : GenericNames) (owner : CodedIndex) : List String :=
  ((g.get owner).mergeSort fun a b => a.1 ≤ b.1).map (·.2)

end GenericNames

/-- The names that stand in for those of `count` generic parameters. -/
def placeholderNames (count : Nat) : List String :=
  if count = 1 then ["T"] else (List.range count).map fun i => "T" ++ toString (i + 1)

/-! ### Attributes -/

/-- The class of the attribute in a row, if its constructor belongs to a class. -/
def constructorClass (x : TypeIndex) (owners : Array Nat) (r : CustomAttributeRow) :
    Except Failure (Option TypeName) :=
  match r.constructor.table with
  | .methodDef =>
    match owner? owners r.constructor.row with
    | some owner => (x.name (TableId.typeDef.token owner)).map some
    | none => .ok none
  | .memberRef =>
    match x.metadata.tables.row? MemberRefRow r.constructor.row with
    | some member => x.attributeClass member.parent.token
    | none => .error (.malformed (.badConstructor r.constructor.token))
  | _ => .ok none

/-- The attribute in a row, under the row of the method it is put on. Attributes of anything but
methods are passed over. -/
def methodAttribute? (x : TypeIndex) (owners : Array Nat) (r : CustomAttributeRow) :
    Except Failure (Option (Nat × AttributeType)) :=
  if r.parent.table = .methodDef then
    (constructorClass x owners r).map fun class? =>
      class?.map fun n => (r.parent.row, ⟨n.rootNamespace, n.innermost.name⟩)
  else
    .ok none

/-- The attributes of each method, under its row. -/
def readAttributes (x : TypeIndex) (owners : Array Nat) :
    Except Failure (Grouping Nat AttributeType) := do
  let rows ← x.metadata.tables.rows CustomAttributeRow
  let found ← rows.toList.mapM (methodAttribute? x owners)
  return .ofList (found.filterMap id)

/-! ### Methods -/

/-- Everything that is joined to the types of metadata. -/
structure Introspection where
  /-- The type definitions. -/
  index : TypeIndex
  /-- The methods. -/
  methods : Array MethodDefRow
  /-- The parameters. -/
  params : Array ParamRow
  /-- The generic parameters of types and methods. -/
  generics : GenericNames
  /-- The attributes of methods. -/
  attributes : Grouping Nat AttributeType

namespace Introspection

/-- Joins the tables of metadata. -/
def build (m : Metadata) : Except Failure Introspection := do
  let types ← m.tables.rows TypeDefRow
  let methods ← m.tables.rows MethodDefRow
  let params ← m.tables.rows ParamRow
  let generics ← GenericNames.read m
  let index ← TypeIndex.build m types
  let attributes ← readAttributes index (methodOwners types methods.size)
  return { index, methods, params, generics, attributes }

/-- The metadata that are joined. -/
def metadata (x : Introspection) : Metadata :=
  x.index.metadata

/-- What the rows of the `i`-th method's parameters say, under their sequence numbers. The row
with number zero stands for the return value and is passed over. -/
def declaredParams (x : Introspection) (i : Nat) :
    Except Failure (Grouping Nat (String × ParamAttributes)) := do
  let run := Run.ofOwner x.methods (·.paramList) x.params.size i
  let rows := (run.rows x.params).filter (·.sequence ≠ 0)
  let named ← rows.mapM fun r => do
    return (r.sequence, (← x.metadata.string r.name, ParamAttributes.ofBits r.flags))
  return .ofList named

/-- The names of a method's own generic parameters: those declared, or placeholders for as many as
its signature counts. -/
def methodGenerics (x : Introspection) (row count : Nat) : List String :=
  match x.generics.names ⟨.methodDef, row⟩ with
  | [] => placeholderNames count
  | names => names

/-- The most parameters that rows can number. -/
def maxParams : Nat := 65535

/-- The parameter at a position, counted from zero. Its name and attributes come from the last row
with its sequence number. -/
def parameter (x : Introspection) (scope : GenericScope)
    (declared : Grouping Nat (String × ParamAttributes)) (p : ParamSig TypeSig) (position : Nat) :
    Except Failure Parameter :=
  let sequence := position + 1
  if maxParams < sequence then
    .error (.malformed (.tooManyParameters position))
  else do
    let (name, attributes) := (declared.last? sequence).getD ("", .none)
    let type ← x.index.resolve scope p.type
    return {
      name := if name = "" then "arg" ++ toString sequence else name
      type := if p.byRef then .byRef type attributes.refKind else type }

/-- The return type of a method. -/
def returnType (x : Introspection) (scope : GenericScope) (p : ParamSig TypeSig) :
    Except Failure TypeDescriptor := do
  let type ← x.index.resolve scope p.type
  return if p.byRef then .byRef type .ref else type

/-- The method in the row `r`, the `i`-th one, of a type with the generic parameters
`typeParams`. -/
def method (x : Introspection) (typeParams : Array String) (i : Nat) (r : MethodDefRow) :
    Except Failure MethodDefinition := do
  let signature ← Signature.readMethod (← x.metadata.blob r.signature)
  let genericParameters := x.methodGenerics r.rid signature.genericCount
  let scope := { typeParams, methodParams := genericParameters.toArray }
  let declared ← x.declaredParams i
  let parameters ← signature.params.zipIdx.mapM fun (p, k) => x.parameter scope declared p k
  let returnType ← x.returnType scope signature.ret
  let name ← x.metadata.string r.name
  return { name, attributes := x.attributes.get r.rid, parameters, returnType, genericParameters }

/-! ### Types -/

/-- The methods of the `i`-th type, whose generic parameters are `typeParams`. -/
def methodsOf (x : Introspection) (typeParams : Array String) (i : Nat) :
    Except Failure (List MethodDefinition) :=
  let run := methodRun x.index.definitions x.methods.size i
  ((run.rows x.methods).zipIdx run.first).mapM fun (r, k) => x.method typeParams k r

/-- The type in the row `r`, the `i`-th one. -/
def type (x : Introspection) (r : TypeDefRow) (i : Nat) : Except Failure TypeDefinition := do
  let name ← x.index.name (TableId.typeDef.token r.rid)
  let typeParams := (x.generics.names ⟨.typeDef, r.rid⟩).toArray
  let methods ← x.methodsOf typeParams i
  return {
    ns := name.rootNamespace
    name := name.innermost.name
    attributes := .ofBits r.flags
    methods }

/-- All types, in the order of their rows. -/
def types (x : Introspection) : Except Failure (List TypeDefinition) :=
  x.index.definitions.toList.zipIdx.mapM fun (r, i) => x.type r i

end Introspection

/-- The types that metadata define. -/
def Metadata.types (m : Metadata) : Except Failure (List TypeDefinition) := do
  (← Introspection.build m).types

end AliasStubs
