import AliasStubs.Proofs.Assembly.Joined
import AliasStubs.Proofs.Assembly.Names
import AliasStubs.Proofs.Metadata.Rows
import Mathlib

/-!
# Methods are divided among types

Whose method a row is follows from the columns of two neighbouring types, and it is worked out
twice: once when the methods of a type are read, and once when the owner of every method is written
down. Both go by the same runs, so they agree.

## Main results

* `Introspection.forall₂_flatMap_methods` : the methods of all types, one after the other.
* `Metadata.types_divide_methods` : **the methods are divided among the types**, and the recorded
  owner of a method is the type that lists it.
-/

namespace AliasStubs

namespace Introspection

variable {x : Introspection} {ts : List TypeDefinition}

/-- If the columns do not decrease, the methods of all types are read from the rows behind the start
of the first run, one after the other. -/
theorem forall₂_flatMap_methods
    (hsorted : x.index.definitions.toList.Pairwise (·.methodList ≤ ·.methodList))
    (h : List.Forall₂ (fun e t => x.Tells e.1 e.2 t) x.index.definitions.toList.zipIdx ts) :
    List.Forall₂ (fun p d => ∃ typeParams, x.Reads typeParams p d)
      (List.range' (methodRun x.index.definitions x.methods.size 0).first
        (x.methods.size - (methodRun x.index.definitions x.methods.size 0).first))
      (ts.flatMap (·.methods)) := by
  have hindexes : x.index.definitions.toList.zipIdx.map (·.2) =
      List.range x.index.definitions.size := by
    rw [List.zipIdx_map_snd, Array.length_toList, List.range_eq_range']
  rw [← flatMap_positions hsorted, ← hindexes, List.flatMap_map]
  refine List.rel_flatMap h fun e t htells => ?_
  exact htells.methods.imp fun p d hreads => ⟨x.typeParams e.1, hreads⟩

end Introspection

/-! ### Main result -/

/-- **The methods are divided among the types.** Whatever the columns hold, every run stays inside
the table and the recorded owner of a method is the last type whose run holds it. If types are told,
there is one for each row, with the methods in its run. If the columns do not decrease, then the
methods of all types are those in the rows from the first column on, each once and in order, and the
recorded owner of a method is the type that lists it, or zero. -/
theorem Metadata.types_divide_methods (m : Metadata) {ts : List TypeDefinition}
    (h : m.types = .ok ts) :
    (∀ (types : Array TypeDefRow) (methodCount : Nat),
      (∀ i, (methodRun types methodCount i).first ≤ (methodRun types methodCount i).stop ∧
        (methodRun types methodCount i).stop ≤ methodCount) ∧
      ∀ p < methodCount, ∃ o, (methodOwners types methodCount)[p]? = some o ∧
        IsOwner types methodCount p o) ∧
    ∃ x : Introspection, x.JoinedFrom m ∧
      List.Forall₂ (fun e t => x.Tells e.1 e.2 t) x.index.definitions.toList.zipIdx ts ∧
      (x.index.definitions.toList.Pairwise (·.methodList ≤ ·.methodList) →
        (∀ first, x.index.definitions[0]? = some first →
          List.Forall₂ (fun p d => ∃ typeParams, x.Reads typeParams p d)
            (List.range' (Run.position first.methodList x.methods.size)
              (x.methods.size - Run.position first.methodList x.methods.size))
            (ts.flatMap (·.methods))) ∧
        ∀ p < x.methods.size, ∃ o,
          (methodOwners x.index.definitions x.methods.size)[p]? = some o ∧
          ∀ i, p ∈ (methodRun x.index.definitions x.methods.size i).positions ↔ o = i + 1) := by
  obtain ⟨x, hjoined, htells⟩ := types_eq_ok_iff.mp h
  refine ⟨fun types methodCount => ⟨methodRun_bounds types methodCount, fun p hp =>
    exists_methodOwners types hp⟩, x, hjoined, htells, fun hsorted => ⟨fun first hfirst => ?_,
    fun p hp => ?_⟩⟩
  · have hstart : (methodRun x.index.definitions x.methods.size 0).first =
        Run.position first.methodList x.methods.size := by
      rw [methodRun, Run.ofOwner, hfirst]
      rfl
    rw [← hstart]
    exact Introspection.forall₂_flatMap_methods hsorted htells
  · obtain ⟨o, ho, howner⟩ := exists_methodOwners x.index.definitions hp
    exact ⟨o, ho, fun i => howner.mem_positions_iff hsorted⟩

/-! ### Sample -/

/-- Three types with three methods. The first type has the first method and the second one has the
others, as the column of the third one points behind the table. -/
def sampleTypes : List TypeDefRow :=
  [⟨1, 0x181, 19, 0, ⟨.typeDef, 0⟩, 1, 1⟩, ⟨2, 0, 1, 8, ⟨.typeDef, 0⟩, 1, 2⟩,
    ⟨3, 0, 1, 0, ⟨.typeDef, 0⟩, 1, 9⟩]

/-- The methods of the types, all of one name and signature. -/
def sampleMethods : List MethodDefRow :=
  [⟨1, 0, 0, 0, 24, 1, 0⟩, ⟨2, 0, 0, 0, 24, 1, 0⟩, ⟨3, 0, 0, 0, 24, 1, 0⟩]

/-- The first method is marked twice, by a class of another module and by the second type. The row
`between` stands between the two. -/
def sampleAttributes (between : CustomAttributeRow) : List CustomAttributeRow :=
  [⟨1, ⟨.methodDef, 1⟩, ⟨.memberRef, 1⟩, 0⟩, between, ⟨3, ⟨.methodDef, 1⟩, ⟨.methodDef, 2⟩, 0⟩]

/-- A mark on a type whose constructor does not exist. -/
def strayAttribute : CustomAttributeRow :=
  ⟨2, ⟨.typeDef, 1⟩, ⟨.memberRef, 7⟩, 0⟩

/-- The layout of these tables, with one reference to a type and one to its constructor. -/
def sampleLayout : Layout where
  rowCount
    | .typeRef => 1
    | .typeDef => 3
    | .methodDef => 3
    | .memberRef => 1
    | .customAttribute => 3
    | _ => 0
  wideStrings := false
  wideGuids := false
  wideBlobs := false

/-- Metadata with these tables. -/
def sample (between : CustomAttributeRow) : Metadata where
  tables :=
    { majorVersion := 2
      minorVersion := 0
      valid := 0x1446
      sorted := 0
      layout := sampleLayout
      tables :=
        [(.typeRef, ⟨(TableRow.bytesOf (α := TypeRefRow) sampleLayout
            [⟨1, ⟨.assemblyRef, 1⟩, 1, 8⟩]).toArray⟩),
          (.typeDef, ⟨(TableRow.bytesOf sampleLayout sampleTypes).toArray⟩),
          (.methodDef, ⟨(TableRow.bytesOf sampleLayout sampleMethods).toArray⟩),
          (.memberRef, ⟨(TableRow.bytesOf (α := MemberRefRow) sampleLayout
            [⟨1, ⟨.typeRef, 1⟩, 0, 0⟩]).toArray⟩),
          (.customAttribute,
            ⟨(TableRow.bytesOf sampleLayout (sampleAttributes between)).toArray⟩)] }
  strings := ⟨"\x00Marker\x00Attributes\x00Tool\x00Run\x00".toUTF8⟩
  blobs := some ⟨⟨#[0, 3, 0, 0, 1]⟩⟩

theorem rows_types_sample (between : CustomAttributeRow) :
    (sample between).tables.rows TypeDefRow = .ok sampleTypes.toArray :=
  Table.rows_of_bytes sampleLayout (by decide) rfl

theorem rows_methods_sample (between : CustomAttributeRow) :
    (sample between).tables.rows MethodDefRow = .ok sampleMethods.toArray :=
  Table.rows_of_bytes sampleLayout (by decide) rfl

theorem rows_attributes_sample {between : CustomAttributeRow}
    (hfits : ∀ a ∈ sampleAttributes between, TableRow.Fits sampleLayout a)
    (hrid : between.rid = 2) :
    (sample between).tables.rows CustomAttributeRow = .ok (sampleAttributes between).toArray :=
  Table.rows_of_bytes sampleLayout hfits (by
    change [1, between.rid, 3] = [1, 2, 3]
    rw [hrid])

/-- The types of the sample. -/
def sampleIndex : TypeIndex where
  metadata := sample strayAttribute
  definitions := sampleTypes.toArray
  enclosing := .ofList []

/-- What is joined to them. -/
def sampleJoined : Introspection where
  index := sampleIndex
  methods := sampleMethods.toArray
  params := #[]
  generics := .ofList []
  attributes := .ofList [(1, ⟨"Attributes", "Marker"⟩), (1, ⟨"Attributes", "Marker"⟩)]

/-- No type of the sample is nested, so each has the name in its row. -/
theorem name_sample {row : Nat} {d : TypeDefRow} {ns name : String} (hrow : row < 2 ^ 24)
    (hd : sampleIndex.definition? row = some d)
    (hname : sampleIndex.metadata.string d.typeName = .ok name)
    (hns : sampleIndex.metadata.string d.typeNamespace = .ok ns) :
    sampleIndex.name (TableId.typeDef.token row) = .ok (.topLevel ns name) := by
  have hrows := rows_types_sample strayAttribute
  obtain ⟨htable, htoken⟩ := TableId.typeDef.denotes_token hrow
  refine (TypeIndex.nameWithin_eq_ok_iff hrows rfl).mpr (.definition htable ?_ ?_ hname hns)
  · rw [htoken, ← hd, TypeIndex.definition?_eq hrows]
    rfl
  · rfl

theorem name_sample_tool :
    sampleIndex.name (TableId.typeDef.token 1) = .ok (.topLevel "" "Tool") :=
  name_sample (d := ⟨1, 0x181, 19, 0, ⟨.typeDef, 0⟩, 1, 1⟩) (by decide) rfl (by decide +kernel)
    (by decide +kernel)

theorem name_sample_marker :
    sampleIndex.name (TableId.typeDef.token 2) = .ok (.topLevel "Attributes" "Marker") :=
  name_sample (d := ⟨2, 0, 1, 8, ⟨.typeDef, 0⟩, 1, 2⟩) (by decide) rfl (by decide +kernel)
    (by decide +kernel)

theorem name_sample_other :
    sampleIndex.name (TableId.typeDef.token 3) = .ok (.topLevel "" "Marker") :=
  name_sample (d := ⟨3, 0, 1, 0, ⟨.typeDef, 0⟩, 1, 9⟩) (by decide) rfl (by decide +kernel)
    (by decide +kernel)

/-- The owners of the methods of the sample. -/
def sampleOwners : Array Nat :=
  methodOwners sampleTypes.toArray sampleMethods.toArray.size

/-- The two marks are read and the stray one is passed over. -/
theorem attributes_sample :
    readAttributes sampleIndex sampleOwners = .ok sampleJoined.attributes := by
  have hrows : sampleIndex.metadata.tables.rows CustomAttributeRow =
      .ok (sampleAttributes strayAttribute).toArray :=
    rows_attributes_sample (by decide) rfl
  have howner : owner? sampleOwners 2 = some 2 := by
    decide +kernel
  have hfirst : methodAttribute? sampleIndex sampleOwners
      ⟨1, ⟨.methodDef, 1⟩, ⟨.memberRef, 1⟩, 0⟩ = .ok (some (1, ⟨"Attributes", "Marker"⟩)) := by
    decide +kernel
  have hlast : methodAttribute? sampleIndex sampleOwners
      ⟨3, ⟨.methodDef, 1⟩, ⟨.methodDef, 2⟩, 0⟩ = .ok (some (1, ⟨"Attributes", "Marker"⟩)) := by
    simp only [methodAttribute?, constructorClass, howner, name_sample_marker]
    rfl
  exact readAttributes_eq_ok_iff.mpr
    ⟨_, _, hrows, .cons hfirst (.cons rfl (.cons hlast .nil)), rfl⟩

theorem joinedFrom_sample : sampleJoined.JoinedFrom (sample strayAttribute) where
  definitions := rows_types_sample strayAttribute
  methods := rows_methods_sample strayAttribute
  params := rfl
  generics := rfl
  index := rfl
  attributes := attributes_sample

/-- A method of the sample, as it is told. -/
def sampleMethod (attributes : List AttributeType) : MethodDefinition where
  name := "Run"
  attributes := attributes
  parameters := []
  returnType := .primitive .void
  genericParameters := []

/-- The types of the sample, as they are told. -/
def sampleDefinitions : List TypeDefinition :=
  [⟨"", "Tool", ⟨false, true, true⟩,
      [sampleMethod [⟨"Attributes", "Marker"⟩, ⟨"Attributes", "Marker"⟩]]⟩,
    ⟨"Attributes", "Marker", ⟨false, false, false⟩, [sampleMethod [], sampleMethod []]⟩,
    ⟨"", "Marker", ⟨false, false, false⟩, []⟩]

/-- The types of the sample are told. -/
theorem types_sample : (sample strayAttribute).types = .ok sampleDefinitions := by
  have hbuild := Introspection.build_eq_ok_iff.mpr joinedFrom_sample
  have htool : sampleJoined.index.name (TableId.typeDef.token 1) = _ := name_sample_tool
  have hmarker : sampleJoined.index.name (TableId.typeDef.token 2) = _ := name_sample_marker
  have hother : sampleJoined.index.name (TableId.typeDef.token 3) = _ := name_sample_other
  rw [Metadata.types, hbuild]
  change List.mapM (fun e : TypeDefRow × Nat => sampleJoined.type e.1 e.2) sampleTypes.zipIdx = _
  simp only [sampleTypes, List.zipIdx_cons, List.zipIdx_nil, List.mapM_cons, List.mapM_nil,
    Introspection.type, htool, hmarker, hother]
  cbv

/-- All methods of the sample belong to its types. -/
theorem Metadata.types_divide_methods_sample :
    ∃ ts, (sample strayAttribute).types = .ok ts ∧
      ∃ x : Introspection, x.JoinedFrom (sample strayAttribute) ∧
        List.Forall₂ (fun p d => ∃ typeParams, x.Reads typeParams p d) [0, 1, 2]
          (ts.flatMap (·.methods)) := by
  obtain ⟨-, x, hx, -, hsorted⟩ := types_divide_methods (sample strayAttribute) types_sample
  have hdefinitions : sampleTypes.toArray = x.index.definitions :=
    Except.ok.inj ((rows_types_sample strayAttribute).symm.trans hx.definitions)
  have hmethods : sampleMethods.toArray = x.methods :=
    Except.ok.inj ((rows_methods_sample strayAttribute).symm.trans hx.methods)
  rw [← hdefinitions, ← hmethods] at hsorted
  exact ⟨_, types_sample, x, hx, (hsorted (by decide)).1 _ rfl⟩

end AliasStubs
