import AliasStubs.Proofs.Assembly.Names
import AliasStubs.Proofs.Assembly.Runs

/-!
# What is told of types

Telling the types of metadata is one long sequence of readings. Here it is taken apart once: what is
joined is read table by table, a type is told from its row and its run of methods, and a method from
its row.

## Main definitions

* `Introspection.JoinedFrom` : what is joined was read from metadata.
* `Introspection.Reads` : a method is read from the row at a position.
* `Introspection.Tells` : a type is told from a row.

## Main results

* `Introspection.build_eq_ok_iff` : joining the tables succeeds exactly if all can be read.
* `Metadata.types_eq_ok_iff` : types are told **row by row**.
-/

namespace AliasStubs

/-- Attributes are read exactly if their table can be and each row of it can. -/
theorem readAttributes_eq_ok_iff {x : TypeIndex} {owners : Array Nat}
    {attributes : Grouping Nat AttributeType} : readAttributes x owners = .ok attributes ↔
      ∃ rows found, x.metadata.tables.rows CustomAttributeRow = .ok rows ∧
        List.Forall₂ (fun r f => methodAttribute? x owners r = .ok f) rows.toList found ∧
        .ofList (found.filterMap id) = attributes := by
  constructor
  · intro h
    obtain ⟨rows, hrows, h⟩ := seq_eq_ok_iff.mp h
    obtain ⟨found, hfound, h⟩ := seq_eq_ok_iff.mp h
    exact ⟨rows, found, hrows, mapM_eq_ok_iff.mp hfound, Except.ok.inj h⟩
  · rintro ⟨rows, found, hrows, hfound, rfl⟩
    exact seq_eq_ok_iff.mpr ⟨rows, hrows, seq_eq_ok_iff.mpr
      ⟨found, mapM_eq_ok_iff.mpr hfound, rfl⟩⟩

namespace Introspection

variable {m : Metadata} {x : Introspection}

/-- What is joined was read from the metadata. -/
structure JoinedFrom (x : Introspection) (m : Metadata) : Prop where
  definitions : m.tables.rows TypeDefRow = .ok x.index.definitions
  methods : m.tables.rows MethodDefRow = .ok x.methods
  params : m.tables.rows ParamRow = .ok x.params
  generics : GenericNames.read m = .ok x.generics
  index : TypeIndex.build m x.index.definitions = .ok x.index
  /-- The owners of the constructors of attributes are those of the runs of methods. -/
  attributes : readAttributes x.index (methodOwners x.index.definitions x.methods.size) =
    .ok x.attributes

/-- Joining the tables succeeds exactly if all that is joined can be read. -/
theorem build_eq_ok_iff : build m = .ok x ↔ x.JoinedFrom m := by
  constructor
  · intro h
    obtain ⟨types, htypes, h⟩ := seq_eq_ok_iff.mp h
    obtain ⟨methods, hmethods, h⟩ := seq_eq_ok_iff.mp h
    obtain ⟨params, hparams, h⟩ := seq_eq_ok_iff.mp h
    obtain ⟨generics, hgenerics, h⟩ := seq_eq_ok_iff.mp h
    obtain ⟨index, hindex, h⟩ := seq_eq_ok_iff.mp h
    obtain ⟨attributes, hattributes, h⟩ := seq_eq_ok_iff.mp h
    cases h
    have hdefinitions : index.definitions = types := by
      obtain ⟨nested, -, h⟩ := seq_eq_ok_iff.mp hindex
      cases h
      rfl
    subst hdefinitions
    exact ⟨htypes, hmethods, hparams, hgenerics, hindex, hattributes⟩
  · intro h
    refine seq_eq_ok_iff.mpr ⟨_, h.definitions, seq_eq_ok_iff.mpr ⟨_, h.methods, ?_⟩⟩
    refine seq_eq_ok_iff.mpr ⟨_, h.params, seq_eq_ok_iff.mpr ⟨_, h.generics, ?_⟩⟩
    exact seq_eq_ok_iff.mpr ⟨_, h.index, seq_eq_ok_iff.mpr ⟨_, h.attributes, rfl⟩⟩

/-- The method `d` of a type with the generic parameters `typeParams` is **read** from the row at
the position `p`. -/
def Reads (x : Introspection) (typeParams : Array String) (p : Nat) (d : MethodDefinition) : Prop :=
  ∃ row, x.methods[p]? = some row ∧ x.method typeParams p row = .ok d

/-- The names of the generic parameters of a type. -/
def typeParams (x : Introspection) (r : TypeDefRow) : Array String :=
  (x.generics.names ⟨.typeDef, r.rid⟩).toArray

/-- The type `t` is **told** from the row `r`, the `i`-th one. -/
structure Tells (x : Introspection) (r : TypeDefRow) (i : Nat) (t : TypeDefinition) : Prop where
  name : ∃ name, x.index.name (TableId.typeDef.token r.rid) = .ok name ∧
    t.ns = name.rootNamespace ∧ t.name = name.innermost.name
  attributes : t.attributes = .ofBits r.flags
  /-- The methods are read from the rows in the run of the type, one after the other. -/
  methods : List.Forall₂ (x.Reads (x.typeParams r))
    (methodRun x.index.definitions x.methods.size i).positions t.methods

/-- The methods of a type are read from the rows in its run. -/
theorem methodsOf_eq_ok_iff {typeParams : Array String} {i : Nat} {ds : List MethodDefinition} :
    x.methodsOf typeParams i = .ok ds ↔ List.Forall₂ (x.Reads typeParams)
      (methodRun x.index.definitions x.methods.size i).positions ds := by
  obtain ⟨-, hstop⟩ := methodRun_bounds x.index.definitions x.methods.size i
  rw [methodsOf, mapM_eq_ok_iff, ← Run.map_snd_zipIdx_rows hstop, List.forall₂_map_left_iff]
  refine forall₂_congr_of_mem fun e he d => ?_
  have hrow : x.methods[e.2]? = some e.1 := Run.getElem?_of_mem_zipIdx he
  constructor
  · intro h
    exact ⟨e.1, hrow, h⟩
  · rintro ⟨row, hrow', h⟩
    obtain rfl : e.1 = row := Option.some.inj (hrow.symm.trans hrow')
    exact h

theorem type_eq_ok_iff {r : TypeDefRow} {i : Nat} {t : TypeDefinition} :
    x.type r i = .ok t ↔ x.Tells r i t := by
  constructor
  · intro h
    obtain ⟨name, hname, h⟩ := seq_eq_ok_iff.mp h
    obtain ⟨methods, hmethods, h⟩ := seq_eq_ok_iff.mp h
    cases h
    exact ⟨⟨name, hname, rfl, rfl⟩, rfl, methodsOf_eq_ok_iff.mp hmethods⟩
  · rintro ⟨⟨name, hname, hns, hinner⟩, hattributes, hmethods⟩
    refine seq_eq_ok_iff.mpr ⟨name, hname, seq_eq_ok_iff.mpr
      ⟨t.methods, methodsOf_eq_ok_iff.mpr hmethods, ?_⟩⟩
    rw [← hns, ← hinner, ← hattributes]
    rfl

/-- Types are told row by row. -/
theorem types_eq_ok_iff {ts : List TypeDefinition} : x.types = .ok ts ↔
    List.Forall₂ (fun e t => x.Tells e.1 e.2 t) x.index.definitions.toList.zipIdx ts := by
  rw [types, mapM_eq_ok_iff]
  exact ⟨fun h => h.imp fun _ _ => type_eq_ok_iff.mp, fun h => h.imp fun _ _ => type_eq_ok_iff.mpr⟩

end Introspection

/-- Types are told exactly if the tables can be joined and every row tells its type. -/
theorem Metadata.types_eq_ok_iff {m : Metadata} {ts : List TypeDefinition} :
    m.types = .ok ts ↔ ∃ x : Introspection, x.JoinedFrom m ∧
      List.Forall₂ (fun e t => x.Tells e.1 e.2 t) x.index.definitions.toList.zipIdx ts := by
  rw [Metadata.types, seq_eq_ok_iff]
  simp only [Introspection.build_eq_ok_iff, Introspection.types_eq_ok_iff]

end AliasStubs
