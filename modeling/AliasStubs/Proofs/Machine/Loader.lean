import AliasStubs.Assembly.Basic
import AliasStubs.Proofs.Machine.Resolver
import AliasStubs.Proofs.Machine.Runs

/-!
# The types of metadata on a machine

Everything comes together where the types are listed: the rows of the tables are taken by the runs
that the columns of other rows start, names and signatures are looked for in the heaps, and the
types of signatures are resolved. Each of these parts takes what it is given from bytes of which
nothing is known, and each of them checks it. So the whole only ever fails by its data.

## Main definitions

* `Machine.Loader` : everything that is joined to the types, `Loader.of` keeps an introspection.
* `Machine.openMetadata`, `Machine.readTypes` : open metadata and list the types they define.

## Main results

* `Loader.build_eq`, `Loader.types_of` : **joining the tables and listing the types never fault**.
* `Machine.reading_settles` : **reading metadata never faults**, whatever the bytes, nor does it run
  out of calls.
-/

namespace AliasStubs.Machine

/-! ### Generic parameters and attributes -/

/-- Reads the generic parameters of all types and methods. -/
def readGenerics (v : View) : Checked GenericNames := do
  let rows ← v.tables.rows GenericParamRow
  let named ← rows.toList.mapM fun r => do
    return (r.owner, (r.number, ← v.string r.name))
  return .ofList named

/-- The class of the attribute in a row, if its constructor belongs to a class. -/
def constructorClass (x : Resolver) (calls : Nat) (owners : Array Nat) (r : CustomAttributeRow) :
    Checked (Option TypeName) :=
  match r.constructor.table with
  | .methodDef =>
    match owner? owners r.constructor.row with
    | some owner => return some (← x.name calls (← token .typeDef owner))
    | none => return none
  | .memberRef => do
    match ← x.view.tables.row? MemberRefRow r.constructor.row with
    | some member => x.attributeClass calls (← token member.parent.table member.parent.row)
    | none => do
      let constructor ← token r.constructor.table r.constructor.row
      throw (.failure (.malformed (.badConstructor constructor)))
  | _ => return none

/-- The attribute in a row, under the row of the method it is put on. -/
def methodAttribute? (x : Resolver) (calls : Nat) (owners : Array Nat) (r : CustomAttributeRow) :
    Checked (Option (Nat × AttributeType)) :=
  if r.parent.table = .methodDef then do
    let class? ← constructorClass x calls owners r
    return class?.map fun n => (r.parent.row, ⟨n.rootNamespace, n.innermost.name⟩)
  else
    return none

/-- The attributes of each method, under its row. -/
def readAttributes (x : Resolver) (calls : Nat) (owners : Array Nat) :
    Checked (Grouping Nat AttributeType) := do
  let rows ← x.view.tables.rows CustomAttributeRow
  let found ← rows.toList.mapM (methodAttribute? x calls owners)
  return .ofList (found.filterMap id)

/-! ### Methods and types -/

/-- Everything that is joined to the types of metadata. -/
structure Loader where
  /-- The type definitions. -/
  resolver : Resolver
  /-- The methods. -/
  methods : Array MethodDefRow
  /-- The parameters. -/
  params : Array ParamRow
  /-- The generic parameters of types and methods. -/
  generics : GenericNames
  /-- The attributes of methods. -/
  attributes : Grouping Nat AttributeType

namespace Loader

/-- Joins the tables of metadata. -/
def build (v : View) (calls : Nat) : Checked Loader := do
  let types ← v.tables.rows TypeDefRow
  let methods ← v.tables.rows MethodDefRow
  let params ← v.tables.rows ParamRow
  let owners ← owners types methods.size
  let generics ← readGenerics v
  let resolver ← Resolver.build v types
  let attributes ← readAttributes resolver calls owners
  return { resolver, methods, params, generics, attributes }

/-- What the rows of the `i`-th method's parameters say, under their sequence numbers. -/
def declaredParams (x : Loader) (i : Nat) (r : MethodDefRow) :
    Checked (Grouping Nat (String × ParamAttributes)) := do
  let run ← runOf x.methods (·.paramList) x.params.size i r
  let rows ← range x.params run.first run.stop
  let named ← (rows.filter (·.sequence ≠ 0)).mapM fun p => do
    return (p.sequence, (← x.resolver.view.string p.name, ParamAttributes.ofBits p.flags))
  return .ofList named

/-- The names of a method's own generic parameters: those declared, or placeholders for as many as
its signature counts. -/
def methodGenerics (x : Loader) (row count : Nat) : List String :=
  match x.generics.names ⟨.methodDef, row⟩ with
  | [] => placeholderNames count
  | names => names

/-- The parameter at a position, counted from zero. -/
def parameter (x : Loader) (calls : Nat) (scope : GenericScope)
    (declared : Grouping Nat (String × ParamAttributes)) (p : ParamSig TypeSig) (position : Nat) :
    Checked Parameter := do
  let sequence ← Word.word64.add position 1
  if Introspection.maxParams < sequence then
    throw (.failure (.malformed (.tooManyParameters position)))
  let (name, attributes) := (declared.last? sequence).getD ("", .none)
  let type ← x.resolver.resolve calls scope p.type
  return {
    name := if name = "" then "arg" ++ toString sequence else name
    type := if p.byRef then .byRef type attributes.refKind else type }

/-- The return type of a method. -/
def returnType (x : Loader) (calls : Nat) (scope : GenericScope) (p : ParamSig TypeSig) :
    Checked TypeDescriptor := do
  let type ← x.resolver.resolve calls scope p.type
  return if p.byRef then .byRef type .ref else type

/-- The method in the row `r`, the `i`-th one, of a type with the generic parameters
`typeParams`. -/
def method (x : Loader) (calls : Nat) (typeParams : Array String) (i : Nat) (r : MethodDefRow) :
    Checked MethodDefinition := do
  let signature ← Parser.readMethod (← x.resolver.view.blob r.signature) calls
  let genericParameters := x.methodGenerics r.rid signature.genericCount
  let scope := { typeParams, methodParams := genericParameters.toArray }
  let declared ← x.declaredParams i r
  let parameters ← signature.params.zipIdx.mapM fun (p, k) =>
    x.parameter calls scope declared p k
  let returnType ← x.returnType calls scope signature.ret
  let name ← x.resolver.view.string r.name
  return { name, attributes := x.attributes.get r.rid, parameters, returnType, genericParameters }

/-- The methods of the `i`-th type, whose generic parameters are `typeParams`. -/
def methodsOf (x : Loader) (calls : Nat) (typeParams : Array String) (i : Nat) (r : TypeDefRow) :
    Checked (List MethodDefinition) := do
  let run ← runOf x.resolver.definitions (·.methodList) x.methods.size i r
  run.positions.mapM fun k => index x.methods k >>= x.method calls typeParams k

/-- The type in the row `r`, the `i`-th one. -/
def type (x : Loader) (calls : Nat) (r : TypeDefRow) (i : Nat) : Checked TypeDefinition := do
  let name ← x.resolver.name calls (← token .typeDef r.rid)
  let typeParams := (x.generics.names ⟨.typeDef, r.rid⟩).toArray
  let methods ← x.methodsOf calls typeParams i r
  return {
    ns := name.rootNamespace
    name := name.innermost.name
    attributes := .ofBits r.flags
    methods }

/-- All types, in the order of their rows. -/
def types (x : Loader) (calls : Nat) : Checked (List TypeDefinition) :=
  x.resolver.definitions.toList.zipIdx.mapM fun (r, i) => x.type calls r i

end Loader

/-- Opens metadata. -/
def openMetadata (data : ByteArray) : Checked Unit := do
  let _ ← View.read data

/-- The types that metadata define, which are opened for it. -/
def readTypes (data : ByteArray) (calls : Nat) : Checked (List TypeDefinition) := do
  let v ← View.read data
  let x ← Loader.build v calls
  x.types calls

/-! ### Reading and joining -/

theorem readGenerics_of {m : Metadata} (hs : Sound m.tables) :
    readGenerics (.of m) = lift (GenericNames.read m) := by
  refine bind_eq_lift_bind (Tables.rows_of hs) fun rows _ => ?_
  refine bind_eq_lift_bind (lift_mapM fun r _ => ?_) fun _ _ => rfl
  exact bind_eq_lift_bind (View.string_of m r.name) fun _ _ => rfl

/-- The calls that are enough to read all metadata of `size` bytes: those of a parser, and those for
the levels of names and types around it. -/
def callsFor (size : Nat) : Nat :=
  3 * Signature.budget + 2 + size + maxLevels

section Attributes

variable {x : TypeIndex} {size calls : Nat} (hm : Held size x.metadata)
  (hcalls : callsFor size ≤ calls) (owners : Array Nat)
include hm hcalls

theorem constructorClass_of (r : CustomAttributeRow) :
    constructorClass (.of x) calls owners r = lift (AliasStubs.constructorClass x owners r) := by
  unfold callsFor at hcalls
  have hname (t : Token) : (Resolver.of x).name calls t = lift (x.name t) :=
    Resolver.name_of hm.tables (by omega) t
  have hclass (t : Token) : (Resolver.of x).attributeClass calls t = lift (x.attributeClass t) :=
    Resolver.attributeClass_of hm (by omega) t
  have hrow : (Resolver.of x).view.tables.row? MemberRefRow r.constructor.row =
      .ok (x.metadata.tables.row? MemberRefRow r.constructor.row) := Tables.row?_of hm.tables _
  simp only [constructorClass, AliasStubs.constructorClass, token_eq, hname, hclass, hrow,
    ok_bind, CodedIndex.token]
  cases r.constructor.table
  case methodDef =>
    dsimp only
    rcases owner? owners r.constructor.row with _ | owner
    · rfl
    · simp only
      cases x.name (TableId.typeDef.token owner) <;> rfl
  case memberRef =>
    dsimp only
    cases x.metadata.tables.row? MemberRefRow r.constructor.row <;> rfl
  all_goals rfl

theorem methodAttribute?_of (r : CustomAttributeRow) :
    methodAttribute? (.of x) calls owners r = lift (AliasStubs.methodAttribute? x owners r) := by
  rw [methodAttribute?, AliasStubs.methodAttribute?]
  split
  · rw [constructorClass_of hm hcalls, lift_map]
    rfl
  · rfl

/-- **Reading the attributes of all methods never faults.** -/
theorem readAttributes_of :
    readAttributes (.of x) calls owners = lift (AliasStubs.readAttributes x owners) := by
  refine bind_eq_lift_bind (Tables.rows_of hm.tables) fun rows _ => ?_
  exact bind_eq_lift_bind (lift_mapM fun r _ => methodAttribute?_of hm hcalls owners r)
    fun _ _ => rfl

end Attributes

namespace Loader

/-- What a machine keeps of an introspection. -/
def of (x : Introspection) : Loader where
  resolver := .of x.index
  methods := x.methods
  params := x.params
  generics := x.generics
  attributes := x.attributes

/-- What is known of all introspections of metadata of `size` bytes: a machine can hold the
metadata, and the rows of types and methods are numbered in order. -/
structure Joined (size : Nat) (x : Introspection) : Prop where
  held : Held size x.metadata
  types : Numbered x.index.definitions
  methods : Numbered x.methods

/-- **Joining the tables never faults.** -/
theorem build_eq {size calls : Nat} {m : Metadata} (hm : Held size m)
    (hcalls : callsFor size ≤ calls) :
    build (.of m) calls = lift ((Introspection.build m).map of) := by
  rw [build, Introspection.build]
  have htypes : (View.of m).tables.rows TypeDefRow = lift (m.tables.rows TypeDefRow) :=
    Tables.rows_of hm.tables
  have hmethods : (View.of m).tables.rows MethodDefRow = lift (m.tables.rows MethodDefRow) :=
    Tables.rows_of hm.tables
  have hparams : (View.of m).tables.rows ParamRow = lift (m.tables.rows ParamRow) :=
    Tables.rows_of hm.tables
  simp only [htypes, hmethods, hparams, readGenerics_of hm.tables, Resolver.build_eq hm.tables]
  rcases hrows : m.tables.rows TypeDefRow with _ | types
  · rfl
  rcases m.tables.rows MethodDefRow with _ | methods
  · rfl
  rcases m.tables.rows ParamRow with _ | params
  · rfl
  simp only [lift_ok, ok_bind, owners_eq (Tables.numbered_of_rows hm.tables hrows)]
  rcases GenericNames.read m with _ | generics
  · rfl
  rcases hindex : TypeIndex.build m types with _ | index
  · rfl
  have hmetadata : index.metadata = m := by
    obtain ⟨nested, -, h⟩ := seq_eq_ok_iff.mp hindex
    cases h
    rfl
  have hattributes := readAttributes_of (x := index) (hmetadata ▸ hm) hcalls
    (methodOwners types methods.size)
  simp only [lift_ok, ok_bind, Except.map, hattributes]
  cases AliasStubs.readAttributes index (methodOwners types methods.size) <;> rfl

/-- All introspections of metadata that can be held are joined. -/
theorem joined_of_build {size : Nat} {m : Metadata} (hm : Held size m) {x : Introspection}
    (h : Introspection.build m = .ok x) : Joined size x := by
  rw [Introspection.build] at h
  obtain ⟨types, htypes, h⟩ := seq_eq_ok_iff.mp h
  obtain ⟨methods, hmethods, h⟩ := seq_eq_ok_iff.mp h
  obtain ⟨_, -, h⟩ := seq_eq_ok_iff.mp h
  obtain ⟨_, -, h⟩ := seq_eq_ok_iff.mp h
  obtain ⟨index, hindex, h⟩ := seq_eq_ok_iff.mp h
  obtain ⟨_, -, h⟩ := seq_eq_ok_iff.mp h
  obtain ⟨_, -, hindex⟩ := seq_eq_ok_iff.mp hindex
  cases hindex
  cases h
  exact ⟨hm, Tables.numbered_of_rows hm.tables htypes, Tables.numbered_of_rows hm.tables hmethods⟩

/-! ### Listing the types -/

/-- A method has fewer parameters than its count has 29 bits for. -/
theorem length_params_lt {data : ByteArray} {signature : MethodSig TypeSig}
    (h : Signature.readMethod data = .ok signature) : signature.params.length < 0x20000000 := by
  obtain ⟨rest, hdecode⟩ := Signature.Session.exists_of_read_start h
  obtain ⟨_, -, hwritten, -⟩ := (Signature.method_type_recognises _).sound hdecode
  cases hwritten with
  | mk _ count _ _ _ => cases count <;> dsimp only <;> omega

section Listing

variable {x : Introspection} {size calls : Nat} (hx : Joined size x)
  (hcalls : callsFor size ≤ calls)
include hx

theorem declaredParams_of {i : Nat} {r : MethodDefRow} (hr : x.methods[i]? = some r) :
    (of x).declaredParams i r = lift (x.declaredParams i) := by
  have hrun : runOf (of x).methods (·.paramList) (of x).params.size i r =
      .ok (.ofOwner x.methods (·.paramList) x.params.size i) := runOf_eq hx.methods _ _ hr
  obtain ⟨hfirst, hstop⟩ := Run.ofOwner_bounds x.methods (·.paramList) x.params.size i
  have hrange : range (of x).params (Run.ofOwner x.methods (·.paramList) x.params.size i).first
      (Run.ofOwner x.methods (·.paramList) x.params.size i).stop = .ok _ := range_run hfirst hstop
  rw [declaredParams, hrun, ok_bind, hrange, ok_bind]
  refine bind_eq_lift_bind (lift_mapM fun p _ => ?_) fun _ _ => rfl
  exact bind_eq_lift_bind (View.string_of x.metadata p.name) fun _ _ => rfl

include hcalls

theorem resolve_of (scope : GenericScope) (signature : TypeSig) :
    (of x).resolver.resolve calls scope signature = lift (x.index.resolve scope signature) := by
  unfold callsFor at hcalls
  exact Resolver.resolveAt_of hx.held scope signature (by omega)

theorem parameter_of (scope : GenericScope) (declared : Grouping Nat (String × ParamAttributes))
    (p : ParamSig TypeSig) {position : Nat} (hposition : position < 0x20000000) :
    (of x).parameter calls scope declared p position =
      lift (x.parameter scope declared p position) := by
  have hsequence : Word.word64.add position 1 = .ok (position + 1) :=
    Word.add_word64 (by omega)
  simp only [parameter, Introspection.parameter, hsequence, ok_bind,
    resolve_of hx hcalls scope p.type]
  split
  · rfl
  · exact bind_eq_lift_bind rfl fun _ _ => rfl

theorem returnType_of (scope : GenericScope) (p : ParamSig TypeSig) :
    (of x).returnType calls scope p = lift (x.returnType scope p) :=
  bind_eq_lift_bind (resolve_of hx hcalls scope p.type) fun _ _ => rfl

/-- **Reading a method never faults.** -/
theorem method_of (typeParams : Array String) {i : Nat} {r : MethodDefRow}
    (hr : x.methods[i]? = some r) :
    (of x).method calls typeParams i r = lift (x.method typeParams i r) := by
  refine bind_eq_lift_bind (hx.held.blob_eq r.signature) fun bytes hbytes => ?_
  obtain ⟨hdata, hsize⟩ := hx.held.blob_le hbytes
  have hread : Parser.readMethod bytes calls = lift (Signature.readMethod bytes) := by
    have hmarks := Parser.markCount_le_size bytes
    unfold callsFor at hcalls
    exact Parser.readMethod_eq hdata (by omega)
  refine bind_eq_lift_bind hread fun signature hsignature => ?_
  refine bind_eq_lift_bind (declaredParams_of hx hr) fun declared _ => ?_
  -- The positions of parameters are counted without a fault because a signature cannot have many.
  have hlength := length_params_lt hsignature
  refine bind_eq_lift_bind (lift_mapM fun (p, k) hp => ?_) fun parameters _ => ?_
  · have hk := List.snd_lt_of_mem_zipIdx hp
    exact parameter_of hx hcalls _ declared p (by omega)
  refine bind_eq_lift_bind (returnType_of hx hcalls _ signature.ret) fun returnType _ => ?_
  exact bind_eq_lift_bind (View.string_of x.metadata r.name) fun _ _ => rfl

theorem methodsOf_of (typeParams : Array String) {i : Nat} {r : TypeDefRow}
    (hr : x.index.definitions[i]? = some r) :
    (of x).methodsOf calls typeParams i r = lift (x.methodsOf typeParams i) := by
  have hrun : runOf (of x).resolver.definitions (·.methodList) (of x).methods.size i r =
      .ok (methodRun x.index.definitions x.methods.size i) := runOf_eq hx.types _ _ hr
  obtain ⟨hfirst, hstop⟩ := methodRun_bounds x.index.definitions x.methods.size i
  rw [methodsOf, hrun, ok_bind]
  refine (mapM_run hfirst hstop _).trans (lift_mapM fun (a, k) ha => ?_)
  exact method_of hx hcalls typeParams (Run.getElem?_of_mem_zipIdx ha)

/-- **Reading a type never faults.** -/
theorem type_of {i : Nat} {r : TypeDefRow} (hr : x.index.definitions[i]? = some r) :
    (of x).type calls r i = lift (x.type r i) := by
  have hname : (of x).resolver.name calls (TableId.typeDef.token r.rid) =
      lift (x.index.name (TableId.typeDef.token r.rid)) := by
    unfold callsFor at hcalls
    exact Resolver.name_of hx.held.tables (by omega) _
  rw [type, token_eq, ok_bind]
  refine bind_eq_lift_bind hname fun name _ => ?_
  exact bind_eq_lift_bind (methodsOf_of hx hcalls _ hr) fun _ _ => rfl

/-- **Listing the types never faults.** -/
theorem types_of : (of x).types calls = lift x.types := by
  refine lift_mapM fun (r, i) hr => type_of hx hcalls ?_
  rw [← Array.getElem?_toList]
  exact List.mk_mem_zipIdx_iff_getElem?.mp hr

end Listing

end Loader

/-! ### Whole metadata -/

/-- Opening metadata comes to what the library comes to. -/
theorem openMetadata_eq (name : String) (data : ByteArray) :
    openMetadata data = lift ((Assembly.ofMetadata name data).map fun _ => ()) := by
  rw [openMetadata, View.read_eq, Assembly.ofMetadata]
  cases Metadata.read data <;> rfl

/-- Listing the types comes to what the library comes to, if the calls are enough. -/
theorem readTypes_eq (name : String) (data : ByteArray) {calls : Nat}
    (hcalls : callsFor data.size ≤ calls) :
    readTypes data calls = lift (Assembly.ofMetadata name data >>= Assembly.types) := by
  have hlibrary : Assembly.ofMetadata name data >>= Assembly.types =
      Metadata.read data >>= Metadata.types := by
    rw [Assembly.ofMetadata]
    cases Metadata.read data <;> rfl
  rw [hlibrary]
  refine bind_eq_lift_bind_of_map (View.read_eq data) fun m hread => ?_
  have hm := held_of_read hread
  refine bind_eq_lift_bind_of_map (Loader.build_eq hm hcalls) fun x hbuild => ?_
  exact Loader.types_of (Loader.joined_of_build hm hbuild) hcalls

/-- **Reading metadata never faults**, whatever the bytes. To open them and to list their types,
both carried out operation by operation, ends with a result or fails by the data: every number on
the way stays inside its word, every index and every range inside what it is taken from, and every
chain of calls within a number that depends on the size of the metadata alone. Both come to what
the library comes to. -/
theorem reading_settles (name : String) (data : ByteArray) (spare : Nat) :
    (Settles (openMetadata data) ∧ Settles (readTypes data (callsFor data.size + spare))) ∧
      openMetadata data = lift ((Assembly.ofMetadata name data).map fun _ => ()) ∧
      readTypes data (callsFor data.size + spare) =
        lift (Assembly.ofMetadata name data >>= Assembly.types) := by
  have hopen := openMetadata_eq name data
  have htypes := readTypes_eq name data (Nat.le_add_right (callsFor data.size) spare)
  rw [hopen, htypes]
  exact ⟨⟨settles_lift _, settles_lift _⟩, rfl, rfl⟩

end AliasStubs.Machine
