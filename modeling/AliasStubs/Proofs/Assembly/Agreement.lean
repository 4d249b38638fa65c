import AliasStubs.Proofs.Assembly.Joined

/-!
# Metadata that agree on all but attributes

Names, signatures and methods are read from the heaps and from the tables other than that of the
attributes. So where two metadata agree on these, all of this is read alike. Of the attributes
themselves only the marks on methods are looked at, in their order.

Names and signatures need even less: apart from the type definitions, which an index holds, they are
read from the heaps and from the tables of references.

## Main definitions

* `Metadata.RefersAlike` : two metadata agree on the heaps and on the tables of references.
* `Metadata.AgreesBeside` : two metadata agree on all but one table.
* `methodMarks` : what a table of attributes says of methods.

## Main results

* `TypeIndex.resolveWithin_withMetadata` : **signatures resolve alike** where references do.
* `Introspection.types_withMetadata` : **types are read alike** from metadata that agree.
* `Metadata.types_eq_of_methodMarks_eq` : **only the marks on methods count**.
-/

namespace AliasStubs

/-! ### Agreement -/

namespace Metadata

/-- Two metadata **refer alike**: they agree on the heaps, and on the tables of references and type
specifications. -/
structure RefersAlike (m m' : Metadata) : Prop where
  strings : m'.strings = m.strings
  blobs : m'.blobs = m.blobs
  typeRef (rid : Nat) : m'.tables.row? TypeRefRow rid = m.tables.row? TypeRefRow rid
  typeSpec (rid : Nat) : m'.tables.row? TypeSpecRow rid = m.tables.row? TypeSpecRow rid
  memberRef (rid : Nat) : m'.tables.row? MemberRefRow rid = m.tables.row? MemberRefRow rid

/-- Two metadata **agree on all but one table**. -/
structure AgreesBeside (t : TableId) (m m' : Metadata) : Prop where
  strings : m'.strings = m.strings
  blobs : m'.blobs = m.blobs
  rows (α : Type) [TableRow α] (h : TableRow.table α ≠ t) : m'.tables.rows α = m.tables.rows α
  row? (α : Type) [TableRow α] (h : TableRow.table α ≠ t) (rid : Nat) :
    m'.tables.row? α rid = m.tables.row? α rid

variable {m m' : Metadata}

theorem RefersAlike.string_eq (h : m.RefersAlike m') : m'.string = m.string := by
  funext index
  rw [Metadata.string, Metadata.string, h.strings]

theorem RefersAlike.blob_eq (h : m.RefersAlike m') : m'.blob = m.blob := by
  funext index
  rw [Metadata.blob, Metadata.blob, h.blobs]

/-- Metadata that agree on all but one table refer alike, unless it is one of references. -/
theorem AgreesBeside.refersAlike {t : TableId} (h : AgreesBeside t m m')
    (ht : t ∉ [TableId.typeRef, .typeSpec, .memberRef]) : m.RefersAlike m' where
  strings := h.strings
  blobs := h.blobs
  typeRef := h.row? TypeRefRow fun heq => ht (heq ▸ by decide)
  typeSpec := h.row? TypeSpecRow fun heq => ht (heq ▸ by decide)
  memberRef := h.row? MemberRefRow fun heq => ht (heq ▸ by decide)

/-- Metadata agree on all but one table if they do on the bytes of all others. -/
theorem AgreesBeside.of_bytes {t : TableId} (hstrings : m'.strings = m.strings)
    (hblobs : m'.blobs = m.blobs) (hlayout : m'.tables.layout = m.tables.layout)
    (hbytes : ∀ u, u ≠ t → m'.tables.bytes? u = m.tables.bytes? u) : AgreesBeside t m m' := by
  have htable (α : Type) [TableRow α] (h : TableRow.table α ≠ t) :
      m'.tables.table? α = m.tables.table? α := by
    rw [TableStream.table?, TableStream.table?, hbytes _ h, hlayout]
  refine ⟨hstrings, hblobs, fun α _ h => ?_, fun α _ h rid => ?_⟩
  · rw [TableStream.rows, TableStream.rows, htable α h]
  · rw [TableStream.row?, TableStream.row?, htable α h]

end Metadata

/-! ### Names and signatures -/

namespace TypeIndex

/-- The same index over other metadata. -/
def withMetadata (x : TypeIndex) (m' : Metadata) : TypeIndex :=
  { x with metadata := m' }

variable {x : TypeIndex} {m' : Metadata} (h : x.metadata.RefersAlike m')
include h

theorem nameWithin_withMetadata (levels : Nat) (t : Token) :
    (x.withMetadata m').nameWithin levels t = x.nameWithin levels t := by
  induction levels generalizing t with
  | zero => rfl
  | succ levels ih =>
      have hqualify : (x.withMetadata m').qualify = x.qualify := by
        funext declaring? ns name
        simp only [qualify, withMetadata, h.string_eq]
      have hih : (x.withMetadata m').nameWithin levels = x.nameWithin levels := funext ih
      rw [nameWithin, nameWithin, hqualify, hih]
      simp only [withMetadata, h.string_eq, h.typeRef]
      rfl

theorem name_withMetadata (t : Token) : (x.withMetadata m').name t = x.name t :=
  nameWithin_withMetadata h maxLevels t

theorem specification_withMetadata (t : Token) :
    (x.withMetadata m').specification t = x.specification t := by
  simp only [specification, withMetadata, h.blob_eq, h.typeSpec]

theorem resolveWithin_withMetadata (scope : GenericScope) (levels : Nat) (signature : TypeSig) :
    (x.withMetadata m').resolveWithin scope levels signature =
      x.resolveWithin scope levels signature := by
  induction levels using Nat.strongRecOn generalizing signature with
  | ind levels ih =>
      cases levels with
      | zero => rfl
      | succ levels =>
          have hih : (x.withMetadata m').resolveWithin scope levels =
              x.resolveWithin scope levels := funext (ih levels (Nat.lt_succ_self _))
          cases signature with
          | simple | method | typeParam | methodParam => rfl
          | pointer | byRef | vector | array => simp only [resolveWithin, hih]
          | generic kind definition arguments =>
              simp only [resolveWithin, hih, nameWithin_withMetadata h]
          | nominal kind t =>
              simp only [resolveWithin, specification_withMetadata h, nameWithin_withMetadata h]
              cases levels with
              | zero => rfl
              | succ levels =>
                  have hless : (x.withMetadata m').resolveWithin scope levels =
                      x.resolveWithin scope levels := funext (ih levels (by omega))
                  simp only [hless]

theorem attributeClass_withMetadata (parent : Token) :
    (x.withMetadata m').attributeClass parent = x.attributeClass parent := by
  simp only [attributeClass, name_withMetadata h, specification_withMetadata h]

theorem methodAttribute?_withMetadata (owners : Array Nat) (r : CustomAttributeRow) :
    methodAttribute? (x.withMetadata m') owners r = methodAttribute? x owners r := by
  simp only [methodAttribute?, constructorClass, name_withMetadata h, attributeClass_withMetadata h]
  simp only [withMetadata, h.memberRef]

end TypeIndex

/-- The names of generic parameters are read alike from metadata that agree on their table. -/
theorem GenericNames.read_eq {m m' : Metadata} (h : m.RefersAlike m')
    (hrows : m'.tables.rows GenericParamRow = m.tables.rows GenericParamRow) :
    GenericNames.read m' = GenericNames.read m := by
  simp only [GenericNames.read, hrows, h.string_eq]

/-- Types are indexed alike in metadata that agree on the table of nested classes. -/
theorem TypeIndex.build_eq {m m' : Metadata}
    (hrows : m'.tables.rows NestedClassRow = m.tables.rows NestedClassRow)
    (types : Array TypeDefRow) :
    TypeIndex.build m' types = (TypeIndex.build m types).map (·.withMetadata m') := by
  simp only [TypeIndex.build, hrows]
  rcases m.tables.rows NestedClassRow with e | nested <;> rfl

/-! ### Methods and types -/

namespace Introspection

/-- The same join over other metadata. -/
def withMetadata (x : Introspection) (m' : Metadata) : Introspection :=
  { x with index := x.index.withMetadata m' }

variable {x : Introspection} {m' : Metadata} (h : x.index.metadata.RefersAlike m')
include h

theorem declaredParams_withMetadata (i : Nat) :
    (x.withMetadata m').declaredParams i = x.declaredParams i := by
  simp only [declaredParams, metadata, withMetadata, TypeIndex.withMetadata, h.string_eq]

theorem parameter_withMetadata (scope : GenericScope)
    (declared : Grouping Nat (String × ParamAttributes)) (p : ParamSig TypeSig) (position : Nat) :
    (x.withMetadata m').parameter scope declared p position =
      x.parameter scope declared p position := by
  simp only [parameter, withMetadata, TypeIndex.resolve, TypeIndex.resolveWithin_withMetadata h]

theorem returnType_withMetadata (scope : GenericScope) (p : ParamSig TypeSig) :
    (x.withMetadata m').returnType scope p = x.returnType scope p := by
  simp only [returnType, withMetadata, TypeIndex.resolve, TypeIndex.resolveWithin_withMetadata h]

theorem method_withMetadata (typeParams : Array String) (i : Nat) (r : MethodDefRow) :
    (x.withMetadata m').method typeParams i r = x.method typeParams i r := by
  have hmetadata : (x.withMetadata m').metadata = m' := rfl
  simp only [method, declaredParams_withMetadata h, parameter_withMetadata h,
    returnType_withMetadata h, hmetadata, h.string_eq, h.blob_eq]
  rfl

theorem type_withMetadata (r : TypeDefRow) (i : Nat) :
    (x.withMetadata m').type r i = x.type r i := by
  have hname : (x.withMetadata m').index.name = x.index.name :=
    funext (TypeIndex.name_withMetadata h)
  have hmethod : (x.withMetadata m').method = x.method := by
    funext typeParams i r
    exact method_withMetadata h typeParams i r
  simp only [type, methodsOf, hname, hmethod]
  rfl

/-- **Types are read alike** from metadata that agree. -/
theorem types_withMetadata : (x.withMetadata m').types = x.types := by
  have htype : (x.withMetadata m').type = x.type := by
    funext r i
    exact type_withMetadata h r i
  simp only [types, htype]
  rfl

end Introspection

/-! ### Joins over other metadata -/

namespace Introspection

variable {x : Introspection} {m m' : Metadata} {t : TableId} (hx : x.JoinedFrom m)
  (h : Metadata.AgreesBeside t m m')
include hx h

/-- Types are indexed alike where metadata differ in another table. -/
theorem JoinedFrom.index_withMetadata (ht : t ≠ .nestedClass) :
    TypeIndex.build m' x.index.definitions = .ok (x.index.withMetadata m') := by
  have hbuild := TypeIndex.build_eq (h.rows NestedClassRow ht.symm) x.index.definitions
  rw [hx.index] at hbuild
  exact hbuild

/-- Attributes are read alike where metadata differ in another table, which is none of references. -/
theorem JoinedFrom.attributes_withMetadata
    (ht : t ∉ [TableId.customAttribute, .typeRef, .typeSpec, .memberRef]) :
    readAttributes (x.index.withMetadata m')
      (methodOwners x.index.definitions x.methods.size) = .ok x.attributes := by
  obtain rfl : x.index.metadata = m := TypeIndex.metadata_of_build hx.index
  rw [List.mem_cons, not_or] at ht
  obtain ⟨rows, found, hrows, hfound, hattributes⟩ := readAttributes_eq_ok_iff.mp hx.attributes
  refine readAttributes_eq_ok_iff.mpr ⟨rows, found, ?_, hfound.imp fun r f hr => ?_, hattributes⟩
  · exact (h.rows CustomAttributeRow (Ne.symm ht.1)).trans hrows
  · exact (TypeIndex.methodAttribute?_withMetadata (h.refersAlike ht.2) _ r).trans hr

end Introspection

/-! ### Marks on methods -/

/-- What a table of attributes says of methods: which are marked, and with which constructors. -/
def methodMarks (rows : Array CustomAttributeRow) : List (CodedIndex × CodedIndex) :=
  (rows.toList.filter (·.parent.table = .methodDef)).map fun r => (r.parent, r.constructor)

/-- Members that yield nothing may be left out beforehand. -/
theorem mapM_filterMap_filter {ε α β : Type} {f : α → Except ε (Option β)} {p : α → Bool}
    (hp : ∀ a, p a = false → f a = .ok none) (l : List α) :
    (l.mapM f).map (·.filterMap id) = ((l.filter p).mapM f).map (·.filterMap id) := by
  have hcons (a : α) (l : List α) : ((a :: l).mapM f).map (·.filterMap id) =
      f a >>= fun b? => ((l.mapM f).map (·.filterMap id)).map (b?.toList ++ ·) := by
    rw [List.mapM_cons]
    rcases f a with e | b?
    · rfl
    · rcases l.mapM f with e | bs
      · rfl
      · rcases b? with _ | b <;> rfl
  induction l with
  | nil => rfl
  | cons a l ih =>
      rw [hcons, ih]
      by_cases ha : p a = true
      · rw [List.filter_cons_of_pos ha, hcons]
      · rw [List.filter_cons_of_neg ha, hp a (Bool.eq_false_iff.mpr ha), ok_bind]
        rcases (l.filter p).mapM f with e | bs <;> rfl

/-- **Attributes are read from the marks on methods**, once their table is. -/
theorem readAttributes_eq {x : TypeIndex} {rows : Array CustomAttributeRow}
    (hrows : x.metadata.tables.rows CustomAttributeRow = .ok rows) (owners : Array Nat) :
    readAttributes x owners = ((((methodMarks rows).mapM fun mark =>
      methodAttribute? x owners ⟨0, mark.1, mark.2, 0⟩).map (·.filterMap id))).map .ofList := by
  have hnone (r : CustomAttributeRow) (hr : decide (r.parent.table = .methodDef) = false) :
      methodAttribute? x owners r = .ok none := by
    rw [methodAttribute?, if_neg (of_decide_eq_false hr)]
  have hmarks : (methodMarks rows).mapM (fun mark =>
      methodAttribute? x owners ⟨0, mark.1, mark.2, 0⟩) =
        (rows.toList.filter (·.parent.table = .methodDef)).mapM (methodAttribute? x owners) := by
    rw [methodMarks, List.mapM_map]
    rfl
  rw [hmarks, ← mapM_filterMap_filter hnone, readAttributes, hrows]
  change rows.toList.mapM (methodAttribute? x owners) >>= _ = _
  rcases rows.toList.mapM (methodAttribute? x owners) with e | found <;> rfl

section Marks

variable {m m' : Metadata} {rows rows' : Array CustomAttributeRow}
  (h : Metadata.AgreesBeside .customAttribute m m')
include h

variable (hrows : m.tables.rows CustomAttributeRow = .ok rows)
  (hrows' : m'.tables.rows CustomAttributeRow = .ok rows')
  (hmarks : methodMarks rows' = methodMarks rows)
include hrows hrows' hmarks

theorem readAttributes_withMetadata {x : TypeIndex} (hx : x.metadata = m) (owners : Array Nat) :
    readAttributes (x.withMetadata m') owners = readAttributes x owners := by
  subst hx
  have hattribute := funext
    (TypeIndex.methodAttribute?_withMetadata (h.refersAlike (by decide)) owners)
  rw [readAttributes_eq (x := x.withMetadata m') hrows' owners, readAttributes_eq hrows owners,
    hmarks, hattribute]

/-- What agrees is joined alike. -/
theorem build_of_agreesBeside :
    Introspection.build m' = (Introspection.build m).map (·.withMetadata m') := by
  have hgenerics := GenericNames.read_eq (h.refersAlike (by decide))
    (h.rows GenericParamRow (by decide))
  have hindex := TypeIndex.build_eq (h.rows NestedClassRow (by decide))
  simp only [Introspection.build, h.rows TypeDefRow (by decide), h.rows MethodDefRow (by decide),
    h.rows ParamRow (by decide), hgenerics, hindex]
  rcases m.tables.rows TypeDefRow with e | types
  · rfl
  rcases m.tables.rows MethodDefRow with e | methods
  · rfl
  rcases m.tables.rows ParamRow with e | params
  · rfl
  rcases GenericNames.read m with e | generics
  · rfl
  simp only [ok_bind]
  rcases hx : TypeIndex.build m types with e | index
  · rfl
  simp only [ok_bind, Except.map, readAttributes_withMetadata h hrows hrows' hmarks
    (TypeIndex.metadata_of_build hx)]
  rcases readAttributes index (methodOwners types methods.size) with e | attributes <;> rfl

/-- **Only the marks on methods count.** Where metadata agree on all but the table of attributes,
and both tables say the same of methods, the same types are told, or the same failure. -/
theorem Metadata.types_eq_of_methodMarks_eq : m'.types = m.types := by
  rw [Metadata.types, Metadata.types, build_of_agreesBeside h hrows hrows' hmarks]
  rcases hbuild : Introspection.build m with e | x
  · rfl
  · have hmetadata : x.index.metadata = m :=
      TypeIndex.metadata_of_build (Introspection.build_eq_ok_iff.mp hbuild).index
    exact Introspection.types_withMetadata (hmetadata ▸ h.refersAlike (by decide))

end Marks

end AliasStubs
