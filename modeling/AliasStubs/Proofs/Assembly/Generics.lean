import AliasStubs.Proofs.Assembly.Parameters
import AliasStubs.Proofs.Assembly.Positions
import Mathlib

/-!
# Generic parameters

The rows of generic parameters name their owners, types and methods, and number the parameters of an
owner from zero. Signatures refer to generic parameters by these numbers. The names of an owner are
put in the order of the numbers, so that a number finds the name of its row if the rows of the owner
are numbered without gaps. In which order the rows stand, and which rows of other owners stand
between them, does not matter then.

## Main definitions

* `NumberedOnce` : the rows of an owner are numbered from zero, each number once.
* `Metadata.NamesInOrder` : names are those of the rows of an owner, by their numbers.
* `Introspection.withGenerics` : the same join with other generic parameters.

## Main results

* `GenericNames.namesInOrder` : the names of an owner are **in the order of their numbers**.
* `Introspection.types_withGenerics` : only the names of the owners count.
* `Metadata.types_name_generics` : **generic parameters are found by their numbers**.
-/

namespace AliasStubs

/-! ### Sorting by numbers -/

section Numbered

variable {l l' : List (Nat × String)}

/-- The members of a list in the order of their numbers. -/
theorem pairwise_sorted (l : List (Nat × String)) :
    (l.mergeSort fun a b => a.1 ≤ b.1).Pairwise fun a b => a.1 ≤ b.1 := by
  have htrans (a b c : Nat × String) (hab : decide (a.1 ≤ b.1) = true)
      (hbc : decide (b.1 ≤ c.1) = true) : decide (a.1 ≤ c.1) = true :=
    decide_eq_true (Nat.le_trans (of_decide_eq_true hab) (of_decide_eq_true hbc))
  have htotal (a b : Nat × String) : (decide (a.1 ≤ b.1) || decide (b.1 ≤ a.1)) = true := by
    rw [Bool.or_eq_true, decide_eq_true_iff, decide_eq_true_iff]
    exact Nat.le_total a.1 b.1
  exact (List.pairwise_mergeSort htrans htotal l).imp of_decide_eq_true

/-- If every number below a bound occurs once, the sorted numbers are these numbers. -/
theorem map_fst_sorted {n : Nat} (h : (l.map (·.1)).Perm (List.range n)) :
    (l.mergeSort fun a b => a.1 ≤ b.1).map (·.1) = List.range n := by
  have hperm := ((List.mergeSort_perm l fun a b => a.1 ≤ b.1).map (·.1)).trans h
  have hsorted := List.pairwise_map.mpr (pairwise_sorted l)
  exact hperm.eq_of_pairwise (fun _ _ _ _ => Nat.le_antisymm) hsorted List.pairwise_le_range

/-- Then **a number is the place of its member** in the sorted list. -/
theorem getElem?_sorted {n k : Nat} {name : String} (h : (l.map (·.1)).Perm (List.range n))
    (hmem : (k, name) ∈ l) : (l.mergeSort fun a b => a.1 ≤ b.1)[k]? = some (k, name) := by
  have hsorted : (k, name) ∈ l.mergeSort fun a b => a.1 ≤ b.1 :=
    (List.mergeSort_perm l _).mem_iff.mpr hmem
  obtain ⟨i, hi⟩ := List.mem_iff_getElem?.mp hsorted
  have hnumber : (List.range n)[i]? = some k := by
    rw [← map_fst_sorted h, List.getElem?_map, hi, Option.map_some]
  obtain ⟨_, hik⟩ := List.getElem?_eq_some_iff.mp hnumber
  rw [List.getElem_range] at hik
  exact hik ▸ hi

/-- **The order of members with different numbers does not matter.** -/
theorem sorted_eq_of_perm (hperm : l'.Perm l) (hnodup : (l.map (·.1)).Nodup) :
    (l'.mergeSort fun a b => a.1 ≤ b.1) = l.mergeSort fun a b => a.1 ≤ b.1 := by
  have hsame := ((List.mergeSort_perm l' fun a b => a.1 ≤ b.1).trans hperm).trans
    (List.mergeSort_perm l fun a b => a.1 ≤ b.1).symm
  refine hsame.eq_of_pairwise (fun a b ha hb hab hba => ?_) (pairwise_sorted l') (pairwise_sorted l)
  have hal : a ∈ l := hperm.mem_iff.mp ((List.mergeSort_perm l' _).mem_iff.mp ha)
  have hbl : b ∈ l := (List.mergeSort_perm l _).mem_iff.mp hb
  exact List.inj_on_of_nodup_map hnodup hal hbl (Nat.le_antisymm hab hba)

end Numbered

/-! ### Rows of generic parameters -/

/-- The rows of an owner are **numbered once**: they carry the numbers below their count, each of
them once, in any order. -/
def NumberedOnce (rows : List GenericParamRow) (owner : CodedIndex) (n : Nat) : Prop :=
  ((rows.filter (·.owner = owner)).map (·.number)).Perm (List.range n)

instance (rows : List GenericParamRow) (owner : CodedIndex) (n : Nat) :
    Decidable (NumberedOnce rows owner n) :=
  inferInstanceAs (Decidable (List.Perm _ _))

/-- An owner without rows. -/
theorem numberedOnce_zero {rows : List GenericParamRow} {owner : CodedIndex}
    (h : ∀ r ∈ rows, r.owner ≠ owner) : NumberedOnce rows owner 0 := by
  have hnone : rows.filter (·.owner = owner) = [] :=
    List.filter_eq_nil_iff.mpr fun r hr howner => h r hr (of_decide_eq_true howner)
  rw [NumberedOnce, hnone]
  exact .refl _

/-- What a row says of the names of its owner. -/
def GenericParamRow.said (r : GenericParamRow) : CodedIndex × Nat × Nat :=
  (r.owner, r.number, r.name)

/-- The names of the rows of an owner, **in the order of their numbers**. -/
structure Metadata.NamesInOrder (m : Metadata) (rows : List GenericParamRow) (owner : CodedIndex)
    (n : Nat) (names : List String) : Prop where
  length : names.length = n
  /-- The number of a row is the place of its name. -/
  name (r : GenericParamRow) (hr : r ∈ rows) (howner : r.owner = owner) :
    ∃ name, m.string r.name = .ok name ∧ names[r.number]? = some name

/-- What is said of an owner, with the name that is said, if it can be read. -/
def Metadata.ReadsName (m : Metadata) (said : CodedIndex × Nat × Nat)
    (e : CodedIndex × Nat × String) : Prop :=
  ∃ name, m.string said.2.2 = .ok name ∧ e = (said.1, said.2.1, name)

namespace GenericNames

variable {m : Metadata} {g : GenericNames}

/-- Names are read if those of all rows can be. -/
theorem read_eq_ok_iff : read m = .ok g ↔ ∃ rows named, m.tables.rows GenericParamRow = .ok rows ∧
    List.Forall₂ m.ReadsName (rows.toList.map GenericParamRow.said) named ∧
      .ofList named = g := by
  have hreads (r : GenericParamRow) (e : CodedIndex × Nat × String) :
      (do return (r.owner, (r.number, ← m.string r.name))) = (.ok e : Except Failure _) ↔
        m.ReadsName r.said e := by
    constructor
    · intro h
      obtain ⟨name, hname, h⟩ := seq_eq_ok_iff.mp h
      exact ⟨name, hname, (Except.ok.inj h).symm⟩
    · rintro ⟨name, hname, rfl⟩
      exact seq_eq_ok_iff.mpr ⟨name, hname, rfl⟩
  rw [read, seq_eq_ok_iff]
  simp only [List.forall₂_map_left_iff, ← hreads, ← mapM_eq_ok_iff]
  constructor
  · rintro ⟨rows, hrows, h⟩
    obtain ⟨named, hnamed, h⟩ := seq_eq_ok_iff.mp h
    exact ⟨rows, named, hrows, hnamed, Except.ok.inj h⟩
  · rintro ⟨rows, named, hrows, hnamed, rfl⟩
    exact ⟨rows, hrows, seq_eq_ok_iff.mpr ⟨named, hnamed, rfl⟩⟩

/-- The names of an owner are those read for it, sorted by number. -/
theorem names_ofList (named : List (CodedIndex × Nat × String)) (owner : CodedIndex) :
    names (.ofList named) owner =
      (((named.filter (·.1 == owner)).map (·.2)).mergeSort fun a b => a.1 ≤ b.1).map (·.2) := by
  rw [names, Grouping.get_ofList]

/-- The numbers of what is read for an owner are those of its rows. -/
theorem map_number_named {rows : List GenericParamRow} {named : List (CodedIndex × Nat × String)}
    (hnamed : List.Forall₂ m.ReadsName (rows.map GenericParamRow.said) named) (owner : CodedIndex) :
    ((named.filter (·.1 == owner)).map (·.2)).map (·.1) =
      (rows.filter (·.owner = owner)).map (·.number) := by
  rw [List.forall₂_map_left_iff] at hnamed
  induction hnamed with
  | nil => rfl
  | @cons r e _ _ hr _ ih =>
      obtain ⟨name, -, rfl⟩ := hr
      by_cases howner : r.owner = owner
      · simp [GenericParamRow.said, howner, ih]
      · simp [GenericParamRow.said, howner, ih]

/-- **The names of an owner are in the order of their numbers.** -/
theorem namesInOrder {rows : Array GenericParamRow} {owner : CodedIndex} {n : Nat}
    (hrows : m.tables.rows GenericParamRow = .ok rows) (hread : read m = .ok g)
    (h : NumberedOnce rows.toList owner n) :
    m.NamesInOrder rows.toList owner n (g.names owner) := by
  obtain ⟨rows', named, hrows', hnamed, rfl⟩ := read_eq_ok_iff.mp hread
  obtain rfl : rows' = rows := Except.ok.inj (hrows'.symm.trans hrows)
  rw [NumberedOnce, ← map_number_named hnamed] at h
  rw [names_ofList]
  constructor
  · rw [List.length_map, List.length_mergeSort, ← List.length_map (·.1), h.length_eq,
      List.length_range]
  · intro r hr howner
    obtain ⟨e, he, name, hname, rfl⟩ :=
      exists_of_mem_left hnamed (List.mem_map_of_mem (f := GenericParamRow.said) hr)
    have hmem : (r.number, name) ∈ (named.filter (·.1 == owner)).map (·.2) :=
      List.mem_map.mpr ⟨_, List.mem_filter.mpr ⟨he, beq_iff_eq.mpr howner⟩, rfl⟩
    refine ⟨name, hname, ?_⟩
    rw [List.getElem?_map, getElem?_sorted h hmem, Option.map_some]

/-- An owner without rows has no names. -/
theorem names_eq_nil {rows : Array GenericParamRow} {owner : CodedIndex}
    (hrows : m.tables.rows GenericParamRow = .ok rows) (hread : read m = .ok g)
    (h : ∀ r ∈ rows.toList, r.owner ≠ owner) : g.names owner = [] :=
  List.length_eq_zero_iff.mp (namesInOrder hrows hread (numberedOnce_zero h)).length

/-- **Permuting rows changes no names**, if no two rows of an owner have the same number. -/
theorem exists_read_of_perm {m' : Metadata} {rows rows' : Array GenericParamRow}
    (hrows : m.tables.rows GenericParamRow = .ok rows) (hread : read m = .ok g)
    (hrows' : m'.tables.rows GenericParamRow = .ok rows') (hstring : m'.string = m.string)
    (hperm : (rows'.toList.map GenericParamRow.said).Perm (rows.toList.map GenericParamRow.said))
    (hnumbered : ∀ owner, ∃ n, NumberedOnce rows.toList owner n) :
    ∃ g', read m' = .ok g' ∧ ∀ owner, g'.names owner = g.names owner := by
  obtain ⟨_, named, hrows₀, hnamed, rfl⟩ := read_eq_ok_iff.mp hread
  obtain rfl := Except.ok.inj (hrows₀.symm.trans hrows)
  obtain ⟨named', hnamed', hpermuted⟩ := List.perm_comp_forall₂ hperm hnamed
  have hreads : m'.ReadsName = m.ReadsName := by
    funext said e
    rw [Metadata.ReadsName, Metadata.ReadsName, hstring]
  refine ⟨_, read_eq_ok_iff.mpr ⟨rows', named', hrows', hreads ▸ hnamed', rfl⟩, fun owner => ?_⟩
  obtain ⟨n, h⟩ := hnumbered owner
  rw [NumberedOnce, ← map_number_named hnamed] at h
  have hsame := (hpermuted.filter (·.1 == owner)).map (·.2)
  rw [names_ofList, names_ofList, sorted_eq_of_perm hsame (h.nodup_iff.mpr List.nodup_range)]

end GenericNames

/-! ### Other generic parameters -/

namespace Introspection

/-- The same join over other metadata, with other generic parameters. -/
def withGenerics (x : Introspection) (m' : Metadata) (g' : GenericNames) : Introspection :=
  { x.withMetadata m' with generics := g' }

variable {x : Introspection} {m m' : Metadata} {g' : GenericNames}

/-- What is joined from metadata that agree on all but the table of generic parameters differs in
these only. -/
theorem JoinedFrom.withGenerics (hx : x.JoinedFrom m)
    (h : Metadata.AgreesBeside .genericParam m m') (hg' : GenericNames.read m' = .ok g') :
    (x.withGenerics m' g').JoinedFrom m' where
  definitions := (h.rows TypeDefRow (by decide)).trans hx.definitions
  methods := (h.rows MethodDefRow (by decide)).trans hx.methods
  params := (h.rows ParamRow (by decide)).trans hx.params
  generics := hg'
  index := hx.index_withMetadata h (by decide)
  attributes := hx.attributes_withMetadata h (by decide)

/-- **Only the names of the owners count**: with the same names, the same types are told. -/
theorem types_withGenerics (h : x.index.metadata.RefersAlike m')
    (hnames : ∀ owner, g'.names owner = x.generics.names owner) :
    (x.withGenerics m' g').types = x.types := by
  have hgenerics : (x.withGenerics m' g').methodGenerics = (x.withMetadata m').methodGenerics := by
    funext row count
    rw [methodGenerics, methodGenerics, withGenerics, hnames]
    rfl
  have hmethod : (x.withGenerics m' g').method = (x.withMetadata m').method := by
    funext typeParams i r
    simp only [method, hgenerics]
    rfl
  have htype : (x.withGenerics m' g').type = (x.withMetadata m').type := by
    funext r i
    simp only [type, methodsOf, hmethod]
    simp only [withGenerics, hnames]
    rfl
  have htypes : (x.withGenerics m' g').types = (x.withMetadata m').types := by
    simp only [types, htype]
    rfl
  rw [htypes, types_withMetadata h]

end Introspection

/-! ### Main result -/

namespace Introspection

variable {x : Introspection} {m : Metadata} {rows : Array GenericParamRow} {c : TypeDefRow}
  {p n : Nat} {r : MethodDefRow} {s : MethodSig TypeSig} {d : MethodDefinition}

/-- A method with names of its own is told with these. -/
theorem methodGenerics_of_ne_nil {row count : Nat}
    (h : x.generics.names ⟨.methodDef, row⟩ ≠ []) :
    x.methodGenerics row count = x.generics.names ⟨.methodDef, row⟩ := by
  rw [methodGenerics]
  split
  · contradiction
  · rfl

/-- A name in a list is told, whatever stands in for names that are missing. -/
theorem told_of_lt {names : List String} {k : Nat} (hk : k < names.length) (placeholder : String) :
    some (.parameter (names.toArray[k]?.getD placeholder)) =
      names[k]?.map TypeDescriptor.parameter := by
  rw [List.getElem?_toArray, List.getElem?_eq_getElem hk, Option.getD_some, Option.map_some]

variable (hx : x.JoinedFrom m) (hrows : m.tables.rows GenericParamRow = .ok rows)
  (hd : x.Loads (x.typeParams c) p r s d)
include hx hrows hd

/-- **The generic parameters of a type are found by their numbers**, in all its methods. -/
theorem Loads.at?_typeParam (h : NumberedOnce rows.toList ⟨.typeDef, c.rid⟩ n) :
    ∃ names, m.NamesInOrder rows.toList ⟨.typeDef, c.rid⟩ n names ∧
      ∀ k < n, ∀ place, x.index.LiesIn s place (.typeParam k) →
        d.at? place = names[k]?.map .parameter := by
  have hnames := GenericNames.namesInOrder hrows hx.generics h
  refine ⟨_, hnames, fun k hk place hlies => ?_⟩
  rw [hd.at?_generic (g := .ofType k) hlies]
  exact told_of_lt (hnames.length.symm ▸ hk) _

/-- **The generic parameters of a method are found by their numbers**, and they are listed in the
order of these. -/
theorem Loads.at?_methodParam (hpos : 0 < n)
    (h : NumberedOnce rows.toList ⟨.methodDef, r.rid⟩ n) :
    m.NamesInOrder rows.toList ⟨.methodDef, r.rid⟩ n d.genericParameters ∧
      ∀ k < n, ∀ place, x.index.LiesIn s place (.methodParam k) →
        d.at? place = d.genericParameters[k]?.map .parameter := by
  have hnames := GenericNames.namesInOrder hrows hx.generics h
  have hne : x.generics.names ⟨.methodDef, r.rid⟩ ≠ [] := by
    rw [← List.length_pos_iff, hnames.length]
    exact hpos
  rw [hd.genericParameters, methodGenerics_of_ne_nil hne]
  refine ⟨hnames, fun k hk place hlies => ?_⟩
  rw [hd.at?_generic (g := .ofMethod k) hlies, scopeOf, methodGenerics_of_ne_nil hne]
  exact told_of_lt (hnames.length.symm ▸ hk) _

end Introspection

namespace Metadata

variable {m m' : Metadata} {x : Introspection} {rows rows' : Array GenericParamRow}

/-- **Permuting the rows of generic parameters does not change the types**, if the rows of every owner
are numbered once. -/
theorem types_permuteGenerics {ts : List TypeDefinition} (h : m.types = .ok ts)
    (hrows : m.tables.rows GenericParamRow = .ok rows)
    (hnumbered : ∀ owner, ∃ n, NumberedOnce rows.toList owner n)
    (hagrees : AgreesBeside .genericParam m m')
    (hrows' : m'.tables.rows GenericParamRow = .ok rows')
    (hperm : (rows'.toList.map GenericParamRow.said).Perm (rows.toList.map GenericParamRow.said)) :
    m'.types = .ok ts := by
  obtain ⟨x, hbuild, htypes⟩ := seq_eq_ok_iff.mp h
  have hx := Introspection.build_eq_ok_iff.mp hbuild
  obtain rfl : x.index.metadata = m := TypeIndex.metadata_of_build hx.index
  have hrefers := hagrees.refersAlike (by decide)
  obtain ⟨g', hg', hnames⟩ :=
    GenericNames.exists_read_of_perm hrows hx.generics hrows' hrefers.string_eq hperm hnumbered
  have hbuild' := Introspection.build_eq_ok_iff.mpr (hx.withGenerics hagrees hg')
  exact seq_eq_ok_iff.mpr ⟨_, hbuild', (Introspection.types_withGenerics hrefers hnames).trans htypes⟩

/-- **Generic parameters are found by their numbers.** If the types of metadata are told, every method
is told from a row with a signature. If the rows of its type are numbered once, then a generic
parameter of the type, wherever it lies in the signature, is told there by the name of the row with
its number. So are those of the method itself if it has rows, and their names are listed in the
order of the numbers. If the rows of every owner are numbered once, the same types are told from
rows in any other order. -/
theorem types_name_generics (m : Metadata) {ts : List TypeDefinition} (h : m.types = .ok ts) :
    ∃ (x : Introspection) (rows : Array GenericParamRow), x.JoinedFrom m ∧
      m.tables.rows GenericParamRow = .ok rows ∧
      (∀ i j d, methodAt? ts i j = some d → ∃ c r s, x.HasMethod i j c ∧
        x.methods[x.methodPosition i j]? = some r ∧
        x.Loads (x.typeParams c) (x.methodPosition i j) r s d ∧
        (∀ n, NumberedOnce rows.toList ⟨.typeDef, c.rid⟩ n →
          ∃ names, m.NamesInOrder rows.toList ⟨.typeDef, c.rid⟩ n names ∧
            ∀ k < n, ∀ place, x.index.LiesIn s place (.typeParam k) →
              d.at? place = names[k]?.map .parameter) ∧
        ∀ n, 0 < n → NumberedOnce rows.toList ⟨.methodDef, r.rid⟩ n →
          m.NamesInOrder rows.toList ⟨.methodDef, r.rid⟩ n d.genericParameters ∧
            ∀ k < n, ∀ place, x.index.LiesIn s place (.methodParam k) →
              d.at? place = d.genericParameters[k]?.map .parameter) ∧
      ((∀ owner, ∃ n, NumberedOnce rows.toList owner n) → ∀ m' rows',
        AgreesBeside .genericParam m m' → m'.tables.rows GenericParamRow = .ok rows' →
          (rows'.toList.map GenericParamRow.said).Perm (rows.toList.map GenericParamRow.said) →
            m'.types = .ok ts) := by
  obtain ⟨x, hx, htells⟩ := types_eq_ok_iff.mp h
  obtain ⟨rows, -, hrows, -, -⟩ := GenericNames.read_eq_ok_iff.mp hx.generics
  refine ⟨x, rows, hx, hrows, fun i j d hd => ?_, fun hnumbered m' rows' hagrees hrows' hperm => ?_⟩
  · obtain ⟨c, r, s, hc, hr, hloads⟩ := Introspection.exists_loads_of_methodAt? htells hd
    exact ⟨c, r, s, hc, hr, hloads, fun n => hloads.at?_typeParam hx hrows,
      fun n => hloads.at?_methodParam hx hrows⟩
  · exact types_permuteGenerics h hrows hnumbered hagrees hrows' hperm

end Metadata

/-! ### Sample -/

/-- The layout of one type with one method, and some rows of generic parameters. -/
def pairedLayout (count : Nat) : Layout where
  rowCount
    | .typeDef => 1
    | .methodDef => 1
    | .genericParam => count
    | _ => 0
  wideStrings := false
  wideGuids := false
  wideBlobs := false

/-- The definition of the type. -/
def pairedType : TypeDefRow := ⟨1, 0x181, 1, 0, ⟨.typeDef, 0⟩, 1, 1⟩

/-- The row of the method. -/
def pairedRow : MethodDefRow := ⟨1, 0, 0, 0, 8, 1, 1⟩

/-- The signature of the method: the first parameter is an array of the second generic parameter of
the type, and the second one is a pointer to the first generic parameter of the method. -/
def pairedSignature : MethodSig TypeSig where
  hasThis := false
  explicitThis := false
  vararg := false
  genericCount := 2
  ret := ⟨[], false, .simple .void⟩
  params := [⟨[], false, .vector (.typeParam 1)⟩, ⟨[], false, .pointer (.methodParam 0)⟩]
  varargs := []

/-- A generic type with a generic method, and rows for their generic parameters. -/
def paired (rows : List GenericParamRow) : Metadata where
  tables :=
    { majorVersion := 2
      minorVersion := 0
      valid := 0x40000000044
      sorted := 0
      layout := pairedLayout rows.length
      tables :=
        [(.typeDef, ⟨(TableRow.bytesOf (pairedLayout rows.length) [pairedType]).toArray⟩),
          (.methodDef, ⟨(TableRow.bytesOf (pairedLayout rows.length) [pairedRow]).toArray⟩),
          (.genericParam, ⟨(TableRow.bytesOf (pairedLayout rows.length) rows).toArray⟩)] }
  strings := ⟨"\x00Pair`2\x00Map\x00A\x00B\x00U\x00V\x00".toUTF8⟩
  blobs := some
    ⟨⟨#[0, 10, 0x10, 0x02, 0x02, 0x01, 0x1D, 0x13, 0x01, 0x0F, 0x1E, 0x00]⟩⟩

/-- Rows out of order, those of the type between those of the method. -/
def pairedRows : List GenericParamRow :=
  [⟨1, 1, 0, ⟨.methodDef, 1⟩, 18⟩, ⟨2, 1, 0, ⟨.typeDef, 1⟩, 14⟩, ⟨3, 0, 0, ⟨.typeDef, 1⟩, 12⟩,
    ⟨4, 0, 0, ⟨.methodDef, 1⟩, 16⟩]

/-- The same rows in order. -/
def pairedRowsSorted : List GenericParamRow :=
  [⟨1, 0, 0, ⟨.typeDef, 1⟩, 12⟩, ⟨2, 1, 0, ⟨.typeDef, 1⟩, 14⟩, ⟨3, 0, 0, ⟨.methodDef, 1⟩, 16⟩,
    ⟨4, 1, 0, ⟨.methodDef, 1⟩, 18⟩]

/-- What is told of the method. -/
def pairedMethod : MethodDefinition where
  name := "Map"
  attributes := []
  parameters := [⟨"arg1", .array (.parameter "B") 1⟩, ⟨"arg2", .pointer (.parameter "U")⟩]
  returnType := .primitive .void
  genericParameters := ["U", "V"]

theorem types_paired :
    (paired pairedRows).types = .ok [⟨"", "Pair`2", ⟨false, true, true⟩, [pairedMethod]⟩] := by
  cbv

theorem rows_pairedRows : (paired pairedRows).tables.rows GenericParamRow = .ok pairedRows.toArray :=
  Table.rows_of_bytes (pairedLayout 4) (by decide) rfl

theorem rows_pairedRowsSorted :
    (paired pairedRowsSorted).tables.rows GenericParamRow = .ok pairedRowsSorted.toArray :=
  Table.rows_of_bytes (pairedLayout 4) (by decide) rfl

/-- Samples with as many rows differ in these only. -/
theorem agreesBeside_paired {rows rows' : List GenericParamRow} (h : rows'.length = rows.length) :
    Metadata.AgreesBeside .genericParam (paired rows) (paired rows') := by
  have hbytes (t : TableId) (ht : t ≠ .genericParam) :
      (paired rows').tables.bytes? t = (paired rows).tables.bytes? t := by
    simp only [paired, TableStream.bytes?, List.lookup_cons, beq_false_of_ne ht, h]
  have hlayout : (paired rows').tables.layout = (paired rows).tables.layout :=
    congrArg pairedLayout h
  exact .of_bytes rfl rfl hlayout hbytes

/-- The rows of the type and those of the method are numbered once, and there are no others. -/
theorem numberedOnce_pairedRows (owner : CodedIndex) : ∃ n, NumberedOnce pairedRows owner n := by
  by_cases htype : owner = ⟨.typeDef, 1⟩
  · subst htype
    exact ⟨2, by decide⟩
  by_cases hmethod : owner = ⟨.methodDef, 1⟩
  · subst hmethod
    exact ⟨2, by decide⟩
  refine ⟨0, numberedOnce_zero fun r hr => ?_⟩
  simp only [pairedRows, List.mem_cons, List.not_mem_nil, or_false] at hr
  rcases hr with rfl | rfl | rfl | rfl
  · exact Ne.symm hmethod
  · exact Ne.symm htype
  · exact Ne.symm htype
  · exact Ne.symm hmethod

section Paired

variable {x : Introspection} {rows : List GenericParamRow} {p : Nat} {r : MethodDefRow}
  {typeParams : Array String} {s : MethodSig TypeSig} {d : MethodDefinition}

/-- The method of a sample is told from its row and its signature. -/
theorem loads_paired (hx : x.JoinedFrom (paired rows))
    (hmethods : (paired rows).tables.rows MethodDefRow = .ok #[pairedRow])
    (hr : x.methods[p]? = some r) (hd : x.Loads typeParams p r s d) :
    r = pairedRow ∧ s = pairedSignature := by
  have hrow : r = pairedRow := by
    rw [← Except.ok.inj (hmethods.symm.trans hx.methods)] at hr
    obtain ⟨hp, rfl⟩ := Array.getElem?_eq_some_iff.mp hr
    obtain rfl : p = 0 := Nat.lt_one_iff.mp hp
    rfl
  obtain ⟨bytes, hbytes, hread⟩ := hd.signature
  rw [hrow, show x.metadata = paired rows from TypeIndex.metadata_of_build hx.index] at hbytes
  obtain rfl : ByteArray.mk #[0x10, 0x02, 0x02, 0x01, 0x1D, 0x13, 0x01, 0x0F, 0x1E, 0x00] = bytes :=
    Except.ok.inj (Eq.trans (by cbv) hbytes)
  exact ⟨hrow, Except.ok.inj (hread.symm.trans (by cbv))⟩

theorem liesIn_paired_typeParam (x : TypeIndex) : x.LiesIn pairedSignature [1, 0] (.typeParam 1) :=
  ⟨1, _, [0], rfl, .part rfl (.self _), rfl⟩

theorem liesIn_paired_methodParam (x : TypeIndex) :
    x.LiesIn pairedSignature [2, 0] (.methodParam 0) :=
  ⟨2, _, [0], rfl, .part rfl (.self _), rfl⟩

end Paired

/-- Both generic parameters are found by their numbers, and the same is told from the rows in
order. -/
theorem Metadata.types_name_generics_paired :
    pairedMethod.at? [1, 0] = some (.parameter "B") ∧
      pairedMethod.at? [2, 0] = some (.parameter "U") ∧
      (paired pairedRowsSorted).types = (paired pairedRows).types := by
  obtain ⟨x, rows, hx, hrows, hall, hpermuted⟩ :=
    types_name_generics (paired pairedRows) types_paired
  obtain rfl := Except.ok.inj (rows_pairedRows.symm.trans hrows)
  have hdefinitions : #[pairedType] = x.index.definitions :=
    Except.ok.inj (Eq.trans (by cbv) hx.definitions)
  obtain ⟨c, r, s, hc, hr, hloads, htype, hmethod⟩ := hall 0 0 pairedMethod rfl
  obtain ⟨rfl, rfl⟩ := loads_paired hx (by cbv) hr hloads
  obtain rfl : pairedType = c := by
    have hdefinition := hc.definition
    rw [← hdefinitions] at hdefinition
    exact Option.some.inj hdefinition
  refine ⟨?_, ?_, ?_⟩
  · obtain ⟨names, hnames, hfound⟩ := htype 2 (by decide)
    obtain ⟨name, hname, hget⟩ := hnames.name ⟨2, 1, 0, ⟨.typeDef, 1⟩, 14⟩ (by decide) rfl
    obtain rfl : "B" = name := Except.ok.inj (Eq.trans (by cbv) hname)
    rw [hfound 1 (by decide) _ (liesIn_paired_typeParam _), hget, Option.map_some]
  · obtain ⟨hnames, hfound⟩ := hmethod 2 (by decide) (by decide)
    rw [hfound 0 (by decide) _ (liesIn_paired_methodParam _)]
    rfl
  · rw [types_paired]
    exact hpermuted numberedOnce_pairedRows _ _ (agreesBeside_paired rfl) rows_pairedRowsSorted
      (by decide)

end AliasStubs
