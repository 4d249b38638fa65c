import AliasStubs.Proofs.Assembly.Agreement
import AliasStubs.Proofs.Assembly.Methods
import AliasStubs.Proofs.Metadata.Rows
import Mathlib

/-!
# Parameters of methods

A method has the parameters that its signature has, and the rows of its run say what they are called
and how they are passed. Since rows are found by their numbers, it does not matter in which order
they stand as long as no two have the same number. Rows with other numbers than those of parameters
do not matter at all: of these only the names have to be readable, unless they have the number zero.

## Main definitions

* `saidOfFirst` : what rows say of the first parameters.
* `PermutedWithin` : the rows of a run are permuted, and no others are changed.
* `methodAt?` : a method of a type, by its place.

## Main results

* `Introspection.Loads.eq_of_said_eq` : **only what is said of its parameters counts** for a method.
* `Metadata.types_permuteParams` : **permuting the rows of a method** keeps all types loadable.
* `Metadata.types_join_parameters` : the parameters of the methods of types that are told.
-/

namespace AliasStubs

/-! ### What counts -/

/-- What a row says, and of which parameter. -/
def ParamRow.said (r : ParamRow) : Nat × Nat × Nat :=
  (r.sequence, r.flags, r.name)

/-- What rows say of the first `count` parameters, which are numbered from one. -/
def saidOfFirst (count : Nat) (rows : List ParamRow) : List (Nat × Nat × Nat) :=
  (rows.filter fun r => 1 ≤ r.sequence ∧ r.sequence ≤ count).map ParamRow.said

/-- What the last row with a number says is found in what all rows say. -/
theorem map_said_lastNumbered (rows : List ParamRow) (number : Nat) :
    (lastNumbered rows number).map ParamRow.said =
      ((rows.map ParamRow.said).filter (·.1 = number)).getLast? := by
  rw [List.filter_map, List.getLast?_map]
  rfl

/-- What the last row with the number of one of the first parameters says is found in what is said
of these. -/
theorem map_said_lastNumbered_of_le {count number : Nat} (hpos : 1 ≤ number)
    (hle : number ≤ count) (rows : List ParamRow) :
    (lastNumbered rows number).map ParamRow.said =
      ((saidOfFirst count rows).filter (·.1 = number)).getLast? := by
  have hrows : rows.filter (·.sequence = number) =
      (rows.filter fun r => 1 ≤ r.sequence ∧ r.sequence ≤ count).filter (·.sequence = number) := by
    rw [List.filter_filter]
    refine List.filter_congr fun r _ => ?_
    by_cases hr : r.sequence = number
    · simp [hr, hpos, hle]
    · simp [hr]
  rw [lastNumbered, hrows, saidOfFirst, ← map_said_lastNumbered, lastNumbered]

/-- Of several rows with different numbers one at most has a given number. -/
theorem length_filter_le_one {said : List (Nat × Nat × Nat)} (h : (said.map (·.1)).Nodup)
    (number : Nat) : (said.filter (·.1 = number)).length ≤ 1 := by
  induction said with
  | nil => exact Nat.zero_le _
  | cons e said ih =>
      rw [List.map_cons, List.nodup_cons] at h
      by_cases he : e.1 = number
      · have hnone : said.filter (·.1 = number) = [] := by
          refine List.filter_eq_nil_iff.mpr fun e' he' heq => h.1 ?_
          rw [he, ← of_decide_eq_true heq]
          exact List.mem_map_of_mem he'
        rw [List.filter_cons_of_pos (by simpa using he), hnone]
        exact Nat.le_refl 1
      · rw [List.filter_cons_of_neg (by simpa using he)]
        exact ih h.2

/-- **The order of rows with different numbers does not matter.** -/
theorem map_said_lastNumbered_of_perm {rows rows' : List ParamRow}
    (hperm : (rows'.map ParamRow.said).Perm (rows.map ParamRow.said))
    (hnodup : (rows.map (·.sequence)).Nodup) (number : Nat) :
    (lastNumbered rows' number).map ParamRow.said =
      (lastNumbered rows number).map ParamRow.said := by
  have hsequences : ((rows.map ParamRow.said).map (·.1)).Nodup := by
    rw [List.map_map]
    exact hnodup
  have hone := length_filter_le_one hsequences number
  have hfiltered : ((rows.map ParamRow.said).filter (·.1 = number)).Perm
      ((rows'.map ParamRow.said).filter (·.1 = number)) := hperm.symm.filter _
  rw [map_said_lastNumbered, map_said_lastNumbered]
  generalize (rows.map ParamRow.said).filter (·.1 = number) = l at hone hfiltered
  match l, hone with
  | [], _ => rw [hfiltered.nil_eq]
  | [e], _ => rw [List.singleton_perm.mp hfiltered]

/-- Rows that say the same of a parameter declare the same of it. -/
theorem Metadata.DeclaresParam.congr {m : Metadata} {rows rows' : List ParamRow} {number : Nat}
    {name : String} {attributes : ParamAttributes}
    (hsaid : (lastNumbered rows' number).map ParamRow.said =
      (lastNumbered rows number).map ParamRow.said)
    (h : m.DeclaresParam rows' number name attributes) :
    m.DeclaresParam rows number name attributes := by
  cases h with
  | missing hrow =>
      rw [hrow, Option.map_none, eq_comm, Option.map_eq_none_iff] at hsaid
      exact .missing hsaid
  | @row r' _ hrow hname =>
      rw [hrow, Option.map_some, eq_comm, Option.map_eq_some_iff] at hsaid
      obtain ⟨r, hr, hsaid⟩ := hsaid
      simp only [ParamRow.said, Prod.mk.injEq] at hsaid
      rw [← hsaid.2.2] at hname
      rw [← hsaid.2.1]
      exact .row hr hname

/-- Rows declare the same over metadata with the same names. -/
theorem Metadata.DeclaresParam.of_string_eq {m m' : Metadata} {rows : List ParamRow} {number : Nat}
    {name : String} {attributes : ParamAttributes} (hstring : m'.string = m.string)
    (h : m.DeclaresParam rows number name attributes) :
    m'.DeclaresParam rows number name attributes := by
  cases h with
  | row hrow hname => exact .row hrow (hstring ▸ hname)
  | missing hrow => exact .missing hrow

namespace Introspection

/-- Rows that say the same of a parameter tell the same parameter. -/
theorem hasParameter_congr {x : Introspection} {scope : GenericScope} {rows rows' : List ParamRow}
    {number : Nat} {p : ParamSig TypeSig} {d : Parameter}
    (hsaid : (lastNumbered rows' number).map ParamRow.said =
      (lastNumbered rows number).map ParamRow.said) :
    x.HasParameter scope rows' number p d ↔ x.HasParameter scope rows number p d := by
  constructor
  · rintro ⟨name, attributes, type, hdeclares, htype⟩
    exact ⟨name, attributes, type, hdeclares.congr hsaid, htype⟩
  · rintro ⟨name, attributes, type, hdeclares, htype⟩
    exact ⟨name, attributes, type, hdeclares.congr hsaid.symm, htype⟩

/-! ### Other tables of parameters -/

/-- The same join over other metadata, with another table of parameters. -/
def withParams (x : Introspection) (m' : Metadata) (params' : Array ParamRow) : Introspection :=
  { x.withMetadata m' with params := params' }

variable {x : Introspection} {m m' : Metadata} {params' : Array ParamRow}

/-- What is joined from metadata that agree on all but the table of parameters differs in this table
only. -/
theorem JoinedFrom.withParams (hx : x.JoinedFrom m) (h : Metadata.AgreesBeside .param m m')
    (hparams' : m'.tables.rows ParamRow = .ok params') :
    (x.withParams m' params').JoinedFrom m' := by
  obtain rfl : x.index.metadata = m := TypeIndex.metadata_of_build hx.index
  have hrefers := h.refersAlike (by decide)
  refine ⟨?_, ?_, hparams', ?_, ?_, ?_⟩
  · exact (h.rows TypeDefRow (by decide)).trans hx.definitions
  · exact (h.rows MethodDefRow (by decide)).trans hx.methods
  · exact (GenericNames.read_eq hrefers (h.rows GenericParamRow (by decide))).trans hx.generics
  · exact hx.index_withMetadata h (by decide)
  · exact hx.attributes_withMetadata h (by decide)

variable (h : x.index.metadata.RefersAlike m')
include h

theorem resolve_withParams (scope : GenericScope) (signature : TypeSig) :
    (x.withParams m' params').index.resolve scope signature = x.index.resolve scope signature :=
  TypeIndex.resolveWithin_withMetadata h scope maxLevels signature

theorem returnType_withParams (scope : GenericScope) (p : ParamSig TypeSig) :
    (x.withParams m' params').returnType scope p = x.returnType scope p :=
  returnType_withMetadata h scope p

theorem string_withParams : (x.withParams m' params').metadata.string = x.metadata.string :=
  h.string_eq

/-- A parameter is told alike, given the rows. -/
theorem hasParameter_withParams_iff {scope : GenericScope} {rows : List ParamRow} {number : Nat}
    {p : ParamSig TypeSig} {d : Parameter} :
    (x.withParams m' params').HasParameter scope rows number p d ↔
      x.HasParameter scope rows number p d := by
  have hstring : (x.withParams m' params').metadata.string = x.metadata.string :=
    string_withParams h
  have hdeclares (name : String) (attributes : ParamAttributes) :
      (x.withParams m' params').metadata.DeclaresParam rows number name attributes ↔
        x.metadata.DeclaresParam rows number name attributes :=
    ⟨.of_string_eq hstring.symm, .of_string_eq hstring⟩
  simp only [HasParameter, hdeclares, resolve_withParams h]

variable {typeParams : Array String} {p : Nat} {r : MethodDefRow} {s : MethodSig TypeSig}
  {d : MethodDefinition}

/-- The parameters of a method are those of which the same is said. -/
theorem Loads.parameters_eq {d' : MethodDefinition} (hd : x.Loads typeParams p r s d)
    (hd' : (x.withParams m' params').Loads typeParams p r s d')
    (hsaid : ∀ number, 1 ≤ number → number ≤ s.params.length →
      (lastNumbered ((x.withParams m' params').paramRows p) number).map ParamRow.said =
        (lastNumbered (x.paramRows p) number).map ParamRow.said) :
    d'.parameters = d.parameters := by
  have hparameter (e : ParamSig TypeSig × Nat) (he : e ∈ s.params.zipIdx) (q : Parameter) :
      (x.withParams m' params').HasParameter (x.scopeOf typeParams r s)
          ((x.withParams m' params').paramRows p) (e.2 + 1) e.1 q ↔
        x.HasParameter (x.scopeOf typeParams r s) (x.paramRows p) (e.2 + 1) e.1 q := by
    obtain ⟨hlt, -⟩ := List.getElem?_eq_some_iff.mp (List.mem_zipIdx_iff_getElem?.mp he)
    rw [hasParameter_withParams_iff h]
    exact hasParameter_congr (hsaid _ (Nat.succ_pos _) hlt)
  have htold := (forall₂_congr_of_mem hparameter).mp hd'.parameters
  have hunique : Relator.RightUnique fun e : ParamSig TypeSig × Nat =>
      x.HasParameter (x.scopeOf typeParams r s) (x.paramRows p) (e.2 + 1) e.1 :=
    fun _ _ _ hq hq' => hq.unique hq'
  exact hunique.forall₂ htold hd.parameters

/-- **Only what is said of its parameters counts for a method.** -/
theorem Loads.eq_of_said_eq {s' : MethodSig TypeSig} {d' : MethodDefinition}
    (hd : x.Loads typeParams p r s d) (hd' : (x.withParams m' params').Loads typeParams p r s' d')
    (hsaid : ∀ number, 1 ≤ number → number ≤ s.params.length →
      (lastNumbered ((x.withParams m' params').paramRows p) number).map ParamRow.said =
        (lastNumbered (x.paramRows p) number).map ParamRow.said) : d' = d := by
  obtain ⟨bytes, hbytes, hs⟩ := hd.signature
  obtain ⟨bytes', hbytes', hs'⟩ := hd'.signature
  obtain rfl : bytes' = bytes := by
    rw [show (x.withParams m' params').metadata.blob = x.metadata.blob from h.blob_eq] at hbytes'
    exact Except.ok.inj (hbytes'.symm.trans hbytes)
  obtain rfl : s' = s := Except.ok.inj (hs'.symm.trans hs)
  have hparameters : d'.parameters = d.parameters := hd.parameters_eq h hd' hsaid
  have hreturnType : d'.returnType = d.returnType := by
    have hreturn := hd'.returnType
    rw [returnType_withParams h] at hreturn
    exact Except.ok.inj (hreturn.symm.trans hd.returnType)
  have hname : d'.name = d.name := by
    have hname := hd'.name
    rw [string_withParams h] at hname
    exact Except.ok.inj (hname.symm.trans hd.name)
  have hattributes : d'.attributes = d.attributes := hd'.attributes.trans hd.attributes.symm
  have hgenerics : d'.genericParameters = d.genericParameters :=
    hd'.genericParameters.trans hd.genericParameters.symm
  rcases d with ⟨_, _, _, _, _⟩
  rcases d' with ⟨_, _, _, _, _⟩
  cases hparameters
  cases hreturnType
  cases hname
  cases hattributes
  cases hgenerics
  rfl

/-- A method is told from other rows, too, if the names in these can be read. -/
theorem Loads.exists_of_readable (hd : x.Loads typeParams p r s d)
    (hreadable : ∀ row ∈ (x.withParams m' params').paramRows p, row.sequence ≠ 0 →
      ∃ name, x.metadata.string row.name = .ok name) :
    ∃ d', (x.withParams m' params').Loads typeParams p r s d' := by
  have hstring : (x.withParams m' params').metadata.string = x.metadata.string :=
    string_withParams h
  rw [← hstring] at hreadable
  obtain ⟨parameters, hparameters⟩ := exists_forall₂
    (R := fun e => (x.withParams m' params').HasParameter (x.scopeOf typeParams r s)
      ((x.withParams m' params').paramRows p) (e.2 + 1) e.1) (l := s.params.zipIdx) fun e he => by
    obtain ⟨_, -, _, _, type, -, htype, -⟩ := exists_of_mem_left hd.parameters he
    obtain ⟨name, attributes, hdeclares⟩ :=
      Metadata.exists_declaresParam hreadable (Nat.succ_ne_zero e.2)
    rw [← resolve_withParams h] at htype
    exact ⟨⟨_, _⟩, name, attributes, type, hdeclares, htype, rfl, rfl⟩
  obtain ⟨bytes, hbytes, hs⟩ := hd.signature
  exact ⟨{ d with parameters }, ⟨bytes, (congrFun h.blob_eq r.signature).trans hbytes, hs⟩,
    hreadable, hd.count, hparameters, (returnType_withParams h _ _).trans hd.returnType,
    (congrFun hstring r.name).trans hd.name, hd.attributes, hd.genericParameters⟩

end Introspection

/-! ### Places of methods -/

/-- The `j`-th method of the `i`-th type. -/
def methodAt? (ts : List TypeDefinition) (i j : Nat) : Option MethodDefinition :=
  ts[i]?.bind (·.methods[j]?)

namespace Introspection

variable {x : Introspection} {ts : List TypeDefinition} {i j : Nat}

/-- All types are told. -/
def TellsAll (x : Introspection) (ts : List TypeDefinition) : Prop :=
  List.Forall₂ (fun e t => x.Tells e.1 e.2 t) x.index.definitions.toList.zipIdx ts

/-- The position of the row of the `j`-th method of the `i`-th type. -/
def methodPosition (x : Introspection) (i j : Nat) : Nat :=
  (methodRun x.index.definitions x.methods.size i).first + j

/-- The `i`-th type is `c`, and it has a `j`-th method. -/
structure HasMethod (x : Introspection) (i j : Nat) (c : TypeDefRow) : Prop where
  definition : x.index.definitions[i]? = some c
  position : (methodRun x.index.definitions x.methods.size i).positions[j]? =
    some (x.methodPosition i j)

/-- What is told at a place is told of what is there. -/
theorem exists_tells_left (h : x.TellsAll ts) {t : TypeDefinition} (ht : ts[i]? = some t) :
    ∃ c, x.index.definitions[i]? = some c ∧ x.Tells c i t := by
  obtain ⟨e, he, htells⟩ := exists_getElem?_left h ht
  rw [List.getElem?_zipIdx, Array.getElem?_toList, Option.map_eq_some_iff] at he
  obtain ⟨c, hc, rfl⟩ := he
  rw [Nat.zero_add] at htells
  exact ⟨c, hc, htells⟩

theorem exists_tells_right (h : x.TellsAll ts) {c : TypeDefRow}
    (hc : x.index.definitions[i]? = some c) : ∃ t, ts[i]? = some t ∧ x.Tells c i t := by
  have he : x.index.definitions.toList.zipIdx[i]? = some (c, i) := by
    rw [List.getElem?_zipIdx, Array.getElem?_toList, hc, Option.map_some, Nat.zero_add]
  exact exists_getElem?_right h he

/-- A method that is told has a row at its place. -/
theorem exists_loads_of_methodAt? (h : x.TellsAll ts) {d : MethodDefinition}
    (hd : methodAt? ts i j = some d) : ∃ c r s, x.HasMethod i j c ∧
      x.methods[x.methodPosition i j]? = some r ∧
      x.Loads (x.typeParams c) (x.methodPosition i j) r s d := by
  obtain ⟨t, ht, hd⟩ := Option.bind_eq_some_iff.mp hd
  obtain ⟨c, hc, htells⟩ := exists_tells_left h ht
  obtain ⟨p, hp, r, hr, hmethod⟩ := exists_getElem?_left htells.methods hd
  obtain ⟨s, hloads⟩ := method_eq_ok_iff.mp hmethod
  obtain rfl : p = x.methodPosition i j := by
    obtain ⟨_, hp⟩ := List.getElem?_eq_some_iff.mp hp
    rw [← hp, methodPosition]
    simp [Run.positions]
  exact ⟨c, r, s, ⟨hc, hp⟩, hr, hloads⟩

/-- The names in the rows of a method that is told can be read. -/
theorem readable_of_methodAt? (h : x.TellsAll ts) {d : MethodDefinition}
    (hd : methodAt? ts i j = some d) :
    ∀ row ∈ x.paramRows (x.methodPosition i j), row.sequence ≠ 0 →
      ∃ name, x.metadata.string row.name = .ok name := by
  obtain ⟨_, _, _, -, -, hloads⟩ := exists_loads_of_methodAt? h hd
  exact hloads.readable

/-- A row at the place of a method tells one. -/
theorem exists_methodAt? (h : x.TellsAll ts) {c : TypeDefRow} (hc : x.HasMethod i j c) :
    ∃ d r s, methodAt? ts i j = some d ∧ x.methods[x.methodPosition i j]? = some r ∧
      x.Loads (x.typeParams c) (x.methodPosition i j) r s d := by
  obtain ⟨t, ht, htells⟩ := exists_tells_right h hc.definition
  obtain ⟨d, hd, r, hr, hmethod⟩ := exists_getElem?_right htells.methods hc.position
  obtain ⟨s, hloads⟩ := method_eq_ok_iff.mp hmethod
  exact ⟨d, r, s, Option.bind_eq_some_iff.mpr ⟨t, ht, hd⟩, hr, hloads⟩

/-- A method has as many parameters as its signature. -/
theorem Loads.length_parameters {typeParams : Array String} {p : Nat} {r : MethodDefRow}
    {s : MethodSig TypeSig} {d : MethodDefinition} (h : x.Loads typeParams p r s d) :
    d.parameters.length = s.params.length := by
  rw [← h.parameters.length_eq, List.length_zipIdx]

section WithParams

variable {m' : Metadata} {params' : Array ParamRow} (h : x.index.metadata.RefersAlike m')
include h

/-- A method is told alike at its place if the same is said of its parameters. -/
theorem methodAt?_withParams {ts' : List TypeDefinition} (htells : x.TellsAll ts)
    (htells' : (x.withParams m' params').TellsAll ts') {d : MethodDefinition}
    (hd : methodAt? ts i j = some d)
    (hsaid : ∀ number, 1 ≤ number → number ≤ d.parameters.length →
      (lastNumbered ((x.withParams m' params').paramRows (x.methodPosition i j)) number).map
          ParamRow.said =
        (lastNumbered (x.paramRows (x.methodPosition i j)) number).map ParamRow.said) :
    methodAt? ts' i j = some d := by
  obtain ⟨c, r, s, hc, hr, hloads⟩ := exists_loads_of_methodAt? htells hd
  have hc' : (x.withParams m' params').HasMethod i j c := ⟨hc.definition, hc.position⟩
  obtain ⟨d', r', s', hd', hr', hloads'⟩ := exists_methodAt? htells' hc'
  obtain rfl : r' = r := Option.some.inj (hr'.symm.trans hr)
  rw [hloads.length_parameters] at hsaid
  rw [hd', hloads.eq_of_said_eq h hloads' hsaid]

/-- Types are told with other rows of parameters, too, if the names in those of their methods can be
read. -/
theorem exists_tellsAll_withParams (htells : x.TellsAll ts)
    (hreadable : ∀ i j d, methodAt? ts i j = some d →
      ∀ row ∈ (x.withParams m' params').paramRows (x.methodPosition i j), row.sequence ≠ 0 →
        ∃ name, x.metadata.string row.name = .ok name) :
    ∃ ts', (x.withParams m' params').TellsAll ts' := by
  refine exists_forall₂ fun e he => ?_
  have hc : x.index.definitions[e.2]? = some e.1 := by
    rw [← Array.getElem?_toList]
    exact List.mem_zipIdx_iff_getElem?.mp he
  obtain ⟨t, ht, htold⟩ := exists_tells_right htells hc
  obtain ⟨methods, hmethods⟩ : ∃ methods,
      List.Forall₂ ((x.withParams m' params').Reads (x.typeParams e.1))
        (methodRun x.index.definitions x.methods.size e.2).positions methods := by
    refine exists_forall₂ fun p hp => ?_
    obtain ⟨j, hj⟩ := List.mem_iff_getElem?.mp hp
    obtain ⟨d, hd, -⟩ := exists_getElem?_right htold.methods hj
    have hat : methodAt? ts e.2 j = some d := Option.bind_eq_some_iff.mpr ⟨t, ht, hd⟩
    obtain ⟨c, r, s, hc', hr, hloads⟩ := exists_loads_of_methodAt? htells hat
    cases hc.symm.trans hc'.definition
    obtain rfl : p = x.methodPosition e.2 j := Option.some.inj (hj.symm.trans hc'.position)
    obtain ⟨d', hloads'⟩ := hloads.exists_of_readable h (hreadable e.2 j d hat)
    exact ⟨d', r, hr, method_eq_ok_iff.mpr ⟨s, hloads'⟩⟩
  obtain ⟨name, hname, hns, hinner⟩ := htold.name
  have hname' := (TypeIndex.name_withMetadata h (TableId.typeDef.token e.1.rid)).trans hname
  exact ⟨{ t with methods }, ⟨name, hname', hns, hinner⟩, htold.attributes, hmethods⟩

end WithParams

end Introspection

/-! ### Permuted rows -/

/-- The rows of a run are **permuted**, and no others are changed. Every row keeps its place in the
numbering of the table, so that it is what the rows say that is moved. -/
structure PermutedWithin (r : Run) (params params' : Array ParamRow) : Prop where
  size : params'.size = params.size
  outside : ∀ i, ¬ (r.first ≤ i ∧ i < r.stop) → params'[i]? = params[i]?
  inside : ((r.rows params').map ParamRow.said).Perm ((r.rows params).map ParamRow.said)

/-- Where all names in two runs can be read, permuting one of them keeps those in the other
readable. -/
theorem PermutedWithin.readable {m : Metadata} {r r' : Run} {params params' : Array ParamRow}
    (h : PermutedWithin r params params')
    (hr : ∀ row ∈ r.rows params, row.sequence ≠ 0 → ∃ name, m.string row.name = .ok name)
    (hr' : ∀ row ∈ r'.rows params, row.sequence ≠ 0 → ∃ name, m.string row.name = .ok name) :
    ∀ row ∈ r'.rows params', row.sequence ≠ 0 → ∃ name, m.string row.name = .ok name := by
  intro row hrow hsequence
  obtain ⟨i, hfirst, hstop, hi⟩ := Run.mem_rows.mp hrow
  by_cases hin : r.first ≤ i ∧ i < r.stop
  · have hmem : row ∈ r.rows params' := Run.mem_rows.mpr ⟨i, hin.1, hin.2, hi⟩
    obtain ⟨row', hrow', hsaid⟩ :=
      List.mem_map.mp (h.inside.mem_iff.mp (List.mem_map_of_mem (f := ParamRow.said) hmem))
    simp only [ParamRow.said, Prod.mk.injEq] at hsaid
    rw [← hsaid.1] at hsequence
    rw [← hsaid.2.2]
    exact hr row' hrow' hsequence
  · rw [h.outside i hin] at hi
    exact hr' row (Run.mem_rows.mpr ⟨i, hfirst, hstop, hi⟩) hsequence

/-! ### Main result -/

namespace Metadata

variable {m m' : Metadata} {x : Introspection} {params' : Array ParamRow}

/-- What is told with another table of parameters. -/
theorem types_eq_ok_iff_withParams (hx : x.JoinedFrom m) (h : AgreesBeside .param m m')
    (hparams' : m'.tables.rows ParamRow = .ok params') {ts' : List TypeDefinition} :
    m'.types = .ok ts' ↔ (x.withParams m' params').TellsAll ts' := by
  have hx' := hx.withParams h hparams'
  rw [types_eq_ok_iff]
  constructor
  · rintro ⟨y, hy, htells⟩
    have hbuild := Introspection.build_eq_ok_iff.mpr hx'
    rw [Introspection.build_eq_ok_iff.mpr hy] at hbuild
    obtain rfl := Except.ok.inj hbuild
    exact htells
  · intro htells
    exact ⟨_, hx', htells⟩

/-- **Permuting the rows of a method changes nothing for it**, if no two of them have the same
number, and the types are still told. -/
theorem types_permuteParams (hx : x.JoinedFrom m) {ts : List TypeDefinition}
    (htells : x.TellsAll ts) (h : AgreesBeside .param m m')
    (hparams' : m'.tables.rows ParamRow = .ok params') {i j : Nat} {d : MethodDefinition}
    (hd : methodAt? ts i j = some d)
    (hperm : PermutedWithin (x.paramRun x.params.size (x.methodPosition i j)) x.params params')
    (hnodup : ((x.paramRows (x.methodPosition i j)).map (·.sequence)).Nodup) :
    ∃ ts', m'.types = .ok ts' ∧ methodAt? ts' i j = some d := by
  obtain rfl : x.index.metadata = m := TypeIndex.metadata_of_build hx.index
  have hrefers := h.refersAlike (by decide)
  have hrows (p : Nat) : (x.withParams m' params').paramRows p =
      (x.paramRun x.params.size p).rows params' := by
    rw [← hperm.size]
    rfl
  have htold : ∃ ts', (x.withParams m' params').TellsAll ts' := by
    refine Introspection.exists_tellsAll_withParams hrefers htells fun k l d' hd' => ?_
    rw [hrows]
    exact hperm.readable (Introspection.readable_of_methodAt? htells hd)
      (Introspection.readable_of_methodAt? htells hd')
  obtain ⟨ts', htells'⟩ := htold
  refine ⟨ts', (types_eq_ok_iff_withParams hx h hparams').mpr htells', ?_⟩
  refine Introspection.methodAt?_withParams hrefers htells htells' hd fun number _ _ => ?_
  rw [hrows]
  exact map_said_lastNumbered_of_perm hperm.inside hnodup number

/-- **The parameters of methods.** If the types of metadata are told, every method is told from a row
with a signature, and it has as many parameters as the signature has fixed ones. The rows in its run
say what these are called and how they are passed, each by the last row with its number. Only what
is said of these parameters counts, as long as types are told: rows with the number zero or with
larger numbers do not change the method. Nor does it change if the rows in its run are permuted, if
no two of them have the same number. -/
theorem types_join_parameters (m : Metadata) {ts : List TypeDefinition} (h : m.types = .ok ts) :
    ∃ x : Introspection, x.JoinedFrom m ∧ ∀ i j d, methodAt? ts i j = some d →
      (∃ c r s, x.HasMethod i j c ∧ x.methods[x.methodPosition i j]? = some r ∧
        x.Loads (x.typeParams c) (x.methodPosition i j) r s d ∧
        d.parameters.length = s.params.length) ∧
      ∀ m' params', AgreesBeside .param m m' → m'.tables.rows ParamRow = .ok params' →
        (∀ ts', m'.types = .ok ts' →
          saidOfFirst d.parameters.length
              ((x.paramRun params'.size (x.methodPosition i j)).rows params') =
            saidOfFirst d.parameters.length (x.paramRows (x.methodPosition i j)) →
          methodAt? ts' i j = some d) ∧
        (PermutedWithin (x.paramRun x.params.size (x.methodPosition i j)) x.params params' →
          ((x.paramRows (x.methodPosition i j)).map (·.sequence)).Nodup →
          ∃ ts', m'.types = .ok ts' ∧ methodAt? ts' i j = some d) := by
  obtain ⟨x, hx, htells⟩ := types_eq_ok_iff.mp h
  refine ⟨x, hx, fun i j d hd => ⟨?_, fun m' params' hagrees hparams' => ⟨?_, ?_⟩⟩⟩
  · obtain ⟨c, r, s, hc, hr, hloads⟩ := Introspection.exists_loads_of_methodAt? htells hd
    exact ⟨c, r, s, hc, hr, hloads, hloads.length_parameters⟩
  · intro ts' h' hsaid
    have htells' := (types_eq_ok_iff_withParams hx hagrees hparams').mp h'
    have hrefers : x.index.metadata.RefersAlike m' :=
      TypeIndex.metadata_of_build hx.index ▸ hagrees.refersAlike (by decide)
    refine Introspection.methodAt?_withParams hrefers htells htells' hd fun number hpos hle => ?_
    rw [map_said_lastNumbered_of_le hpos hle, map_said_lastNumbered_of_le hpos hle, ← hsaid]
    rfl
  · intro hperm hnodup
    exact types_permuteParams hx htells hagrees hparams' hd hperm hnodup

end Metadata

/-! ### Sample -/

/-- The layout of one type with one method, and four rows of parameters. -/
def passedLayout : Layout where
  rowCount
    | .typeDef => 1
    | .methodDef => 1
    | .param => 4
    | _ => 0
  wideStrings := false
  wideGuids := false
  wideBlobs := false

/-- A method with three parameters, two of which are passed by reference, and rows for them. -/
def passed (rows : List ParamRow) : Metadata where
  tables :=
    { majorVersion := 2
      minorVersion := 0
      valid := 0x144
      sorted := 0
      layout := passedLayout
      tables :=
        [(.typeDef, ⟨(TableRow.bytesOf (α := TypeDefRow) passedLayout
            [⟨1, 0x181, 1, 0, ⟨.typeDef, 0⟩, 1, 1⟩]).toArray⟩),
          (.methodDef, ⟨(TableRow.bytesOf (α := MethodDefRow) passedLayout
            [⟨1, 0, 0, 0, 6, 1, 1⟩]).toArray⟩),
          (.param, ⟨(TableRow.bytesOf passedLayout rows).toArray⟩)] }
  strings := ⟨"\x00Tool\x00Try\x00value\x00extra\x00".toUTF8⟩
  blobs := some ⟨⟨#[0, 8, 0x00, 0x03, 0x01, 0x08, 0x10, 0x08, 0x10, 0x0E]⟩⟩

/-- Rows out of order: the second parameter is passed out, the return value has a name that cannot be
read, the seventh parameter does not exist, and the first one has no name. -/
def passedRows : List ParamRow :=
  [⟨1, 2, 2, 10⟩, ⟨2, 0, 0, 99⟩, ⟨3, 0, 7, 16⟩, ⟨4, 1, 1, 0⟩]

/-- The same rows in order. -/
def passedRowsSorted : List ParamRow :=
  [⟨1, 0, 0, 99⟩, ⟨2, 1, 1, 0⟩, ⟨3, 2, 2, 10⟩, ⟨4, 0, 7, 16⟩]

/-- What is told of the method. -/
def passedMethod : MethodDefinition where
  name := "Try"
  attributes := []
  parameters := [⟨"arg1", .primitive .int32⟩, ⟨"value", .byRef (.primitive .int32) .out⟩,
    ⟨"arg3", .byRef (.primitive .string) .ref⟩]
  returnType := .primitive .void
  genericParameters := []

theorem types_passed :
    (passed passedRows).types = .ok [⟨"", "Tool", ⟨false, true, true⟩, [passedMethod]⟩] := by
  cbv

theorem rows_passedRows : (passed passedRows).tables.rows ParamRow = .ok passedRows.toArray :=
  Table.rows_of_bytes passedLayout (by decide) rfl

theorem rows_passedRowsSorted :
    (passed passedRowsSorted).tables.rows ParamRow = .ok passedRowsSorted.toArray :=
  Table.rows_of_bytes passedLayout (by decide) rfl

/-- The rows in order are a permutation of the others. -/
theorem permutedWithin_passed :
    PermutedWithin ⟨0, 4⟩ passedRows.toArray passedRowsSorted.toArray where
  size := rfl
  outside i hi := by
    have hle : 4 ≤ i := by
      by_contra hlt
      exact hi ⟨Nat.zero_le i, Nat.lt_of_not_le hlt⟩
    rw [Array.getElem?_eq_none hle, Array.getElem?_eq_none hle]
  inside := by decide +kernel

/-- Samples differ in the rows of their parameters only. -/
theorem agreesBeside_passed (rows rows' : List ParamRow) :
    Metadata.AgreesBeside .param (passed rows) (passed rows') := by
  have hbytes (t : TableId) (h : t ≠ .param) :
      (passed rows').tables.bytes? t = (passed rows).tables.bytes? t := by
    simp only [passed, TableStream.bytes?, List.lookup_cons, beq_false_of_ne h]
  exact .of_bytes rfl rfl rfl hbytes

/-- The method is told alike from the rows in order. -/
theorem Metadata.types_join_parameters_passed :
    ∃ ts', (passed passedRowsSorted).types = .ok ts' ∧ methodAt? ts' 0 0 = some passedMethod := by
  obtain ⟨x, hx, hall⟩ := types_join_parameters (passed passedRows) types_passed
  have hparams : passedRows.toArray = x.params :=
    Except.ok.inj (rows_passedRows.symm.trans hx.params)
  have hdefinitions : #[⟨1, 0x181, 1, 0, ⟨.typeDef, 0⟩, 1, 1⟩] = x.index.definitions :=
    Except.ok.inj (Eq.trans (by cbv) hx.definitions)
  have hmethods : #[⟨1, 0, 0, 0, 6, 1, 1⟩] = x.methods :=
    Except.ok.inj (Eq.trans (by cbv) hx.methods)
  have hrun : x.paramRun x.params.size (x.methodPosition 0 0) = ⟨0, 4⟩ := by
    rw [Introspection.paramRun, Introspection.methodPosition, ← hdefinitions, ← hmethods, ← hparams]
    rfl
  have hperm : PermutedWithin (x.paramRun x.params.size (x.methodPosition 0 0)) x.params
      passedRowsSorted.toArray := by
    rw [hrun, ← hparams]
    exact permutedWithin_passed
  have hnodup : ((x.paramRows (x.methodPosition 0 0)).map (·.sequence)).Nodup := by
    rw [Introspection.paramRows, hrun, ← hparams]
    decide +kernel
  obtain ⟨-, hrest⟩ := hall 0 0 passedMethod rfl
  exact (hrest _ _ (agreesBeside_passed _ _) rows_passedRowsSorted).2 hperm hnodup

end AliasStubs
