import AliasStubs.Proofs.Assembly.Agreement
import AliasStubs.Proofs.Assembly.Constructors
import AliasStubs.Proofs.Assembly.Ownership

/-!
# Attributes of methods

The attributes that are read for a method are compared with those that the tables say it has. The
tables of the attributes and of the references are read row by row, and the groups of the attributes
keep the order of the rows, so the two agree.

## Main results

* `exists_get_attributes` : the attributes that are read for a method.
* `Metadata.types_join_attributes` : **the attributes of methods are joined** as the tables say.
-/

namespace AliasStubs

/-! ### What is read -/

/-- A method has a recorded owner, or none, or does not exist. -/
theorem owner?_cases (types : Array TypeDefRow) (methodCount row : Nat) :
    (∃ i, owner? (methodOwners types methodCount) row = some (i + 1) ∧ row ≠ 0 ∧
      IsOwner types methodCount (row - 1) (i + 1)) ∨
    (owner? (methodOwners types methodCount) row = none ∧
      (row = 0 ∨ methodCount < row ∨ IsOwner types methodCount (row - 1) 0)) := by
  rw [owner?]
  by_cases hrow : row = 0
  · exact .inr ⟨if_pos hrow, .inl hrow⟩
  · rw [if_neg hrow]
    by_cases hlt : row - 1 < methodCount
    · obtain ⟨o, ho, howner⟩ := exists_methodOwners types hlt
      rw [ho]
      rcases o with _ | i
      · exact .inr ⟨rfl, .inr (.inr howner)⟩
      · exact .inl ⟨i, rfl, hrow, howner⟩
    · have hsize : (methodOwners types methodCount).size = methodCount :=
        size_ownersOfFirst types methodCount types.size
      rw [Array.getElem?_eq_none (by omega)]
      exact .inr ⟨rfl, .inr (.inl (by omega))⟩

section Reading

variable {m : Metadata} {x : TypeIndex} {methodCount : Nat}
  (hrows : m.tables.rows TypeDefRow = .ok x.definitions)
  (hbuild : TypeIndex.build m x.definitions = .ok x)
include hrows hbuild

omit hrows in
/-- A specification is read from its row. -/
theorem specifies_of_specification {t : Token} {row : Nat} {signature : TypeSig}
    (ht : t.row = row) (h : x.specification t = .ok signature) : m.Specifies row signature := by
  obtain rfl := TypeIndex.metadata_of_build hbuild
  rw [TypeIndex.specification, ht] at h
  split at h
  · cases h
  · rename_i s hs
    obtain ⟨bytes, hbytes, hsignature⟩ := seq_eq_ok_iff.mp h
    exact ⟨s, bytes, hs, hbytes, hsignature⟩

omit hrows hbuild in
/-- A signature gives the class that is taken from it. -/
theorem parentClass_of_specifies {row : Nat} {signature : TypeSig}
    (h : m.Specifies row signature) :
    ParentClass m ⟨.typeSpec, row⟩ (TypeIndex.classToken? signature) := by
  unfold TypeIndex.classToken?
  split
  · exact .generic h
  · exact .specified h
  · rename_i hgeneric hclass
    exact .specifiedOther h hgeneric hclass

/-- A parent is read as the class that its members belong to. -/
theorem exists_parentClass {parent : CodedIndex} {class? : Option TypeName}
    (hfits : parent.row < 2 ^ 24) (h : x.attributeClass parent.token = .ok class?) :
    ∃ t?, ParentClass m parent t? ∧ Option.Rel (m.Named maxLevels) t? class? := by
  have hname {t : Token} {n : TypeName} (hn : x.name t = .ok n) : m.Named maxLevels t n :=
    (TypeIndex.nameWithin_eq_ok_iff hrows hbuild).mp hn
  rcases parent with ⟨table, row⟩
  have htoken : (CodedIndex.mk table row).token.Denotes table row := table.denotes_token hfits
  have htable (t : TableId) : (CodedIndex.mk table row).token.table = t.number ↔ table = t := by
    rw [htoken.1]
    exact ⟨TableId.eq_of_number_eq, congrArg _⟩
  rw [TypeIndex.attributeClass, TypeIndex.isSpecification] at h
  simp only [htable, decide_eq_true_eq] at h
  split at h
  · rename_i hparent
    obtain ⟨n, hn, rfl⟩ := map_eq_ok_iff.mp h
    exact ⟨_, .named hparent htoken, .some (hname hn)⟩
  · rename_i htype
    split at h
    · rename_i hspec
      subst hspec
      obtain ⟨signature, hsignature, h⟩ := seq_eq_ok_iff.mp h
      have hspecifies := specifies_of_specification hbuild htoken.2 hsignature
      have hclass := parentClass_of_specifies hspecifies
      refine ⟨_, hclass, ?_⟩
      split at h
      · rename_i t ht
        obtain ⟨n, hn, rfl⟩ := map_eq_ok_iff.mp h
        rw [ht]
        exact .some (hname hn)
      · rename_i hnone
        cases h
        rw [hnone]
        exact .none
    · rename_i hspec
      cases h
      obtain ⟨hdef, href⟩ := not_or.mp htype
      exact ⟨none, .other (by simp [hdef, href, hspec]), .none⟩

variable (hsize : x.definitions.size < 2 ^ 24)
  (hparents : ∀ c r, m.tables.row? MemberRefRow c = some r → r.parent.row < 2 ^ 24)
include hsize hparents

/-- A constructor is read as the class that it belongs to. -/
theorem exists_constructorClass {r : CustomAttributeRow} {class? : Option TypeName}
    (h : constructorClass x (methodOwners x.definitions methodCount) r = .ok class?) :
    ∃ t?, ConstructorClass m x.definitions methodCount r.constructor t? ∧
      Option.Rel (m.Named maxLevels) t? class? := by
  have hmetadata := TypeIndex.metadata_of_build hbuild
  rcases hconstructor : r.constructor with ⟨table, row⟩
  rw [constructorClass, hconstructor] at h
  split at h
  · rename_i hdef
    obtain rfl : table = .methodDef := hdef
    rcases owner?_cases x.definitions methodCount row with ⟨i, hi, hrow, howner⟩ | ⟨hnone, hwhy⟩
    · simp only [hi] at h
      obtain ⟨n, hn, rfl⟩ := map_eq_ok_iff.mp h
      have hlt : i + 1 < 2 ^ 24 := Nat.lt_of_le_of_lt howner.lt_size hsize
      exact ⟨_, .owned hrow howner (TableId.denotes_token _ hlt),
        .some ((TypeIndex.nameWithin_eq_ok_iff hrows hbuild).mp hn)⟩
    · simp only [hnone] at h
      cases h
      exact ⟨none, .unowned hwhy, .none⟩
  · rename_i href
    obtain rfl : table = .memberRef := href
    rw [hmetadata] at h
    split at h
    · rename_i member hmember
      obtain ⟨t?, hclass, hrel⟩ := exists_parentClass hrows hbuild (hparents _ _ hmember) h
      exact ⟨t?, .member hmember hclass, hrel⟩
    · cases h
  · rename_i hdef href
    cases h
    exact ⟨none, .other hdef href, .none⟩

/-- A row that marks a method is read as what it contributes to that method. -/
theorem exists_attributeOf {r : CustomAttributeRow} {f : Option (Nat × AttributeType)}
    (hr : methodAttribute? x (methodOwners x.definitions methodCount) r = .ok f)
    (hmethod : r.parent.table = .methodDef) :
    ∃ a?, AttributeOf m x.definitions methodCount r a? ∧ f = a?.map (r.parent.row, ·) := by
  rw [methodAttribute?, if_pos hmethod] at hr
  obtain ⟨class?, hclass, rfl⟩ := map_eq_ok_iff.mp hr
  obtain ⟨t?, hconstructor, hrel⟩ := exists_constructorClass hrows hbuild hsize hparents hclass
  cases hrel with
  | none => exact ⟨none, .of_none hconstructor, rfl⟩
  | some hname => exact ⟨_, .of_class hconstructor hname, rfl⟩

/-- **The attributes that are read for the method in a row** are those that the rows which mark it
contribute, in their order. -/
theorem exists_get_attributes {rows : List CustomAttributeRow}
    {found : List (Option (Nat × AttributeType))}
    (h : List.Forall₂ (fun r f =>
      methodAttribute? x (methodOwners x.definitions methodCount) r = .ok f) rows found)
    (row : Nat) :
    ∃ contributed, List.Forall₂ (AttributeOf m x.definitions methodCount)
        (rows.filter (·.parent = ⟨.methodDef, row⟩)) contributed ∧
      (Grouping.ofList (found.filterMap id)).get row = contributed.reduceOption := by
  rw [Grouping.get_ofList]
  induction h with
  | nil => exact ⟨[], .nil, rfl⟩
  | @cons r f rows found hr _ ih =>
      obtain ⟨contributed, hcontributed, hget⟩ := ih
      have hfound : (f :: found).filterMap id = f.toList ++ found.filterMap id := by
        cases f <;> rfl
      rw [hfound, List.filter_append, List.map_append, hget]
      by_cases hmethod : r.parent.table = .methodDef
      · obtain ⟨a?, ha, rfl⟩ := exists_attributeOf hrows hbuild hsize hparents hr hmethod
        by_cases hrow : r.parent.row = row
        · have hparent : r.parent = ⟨.methodDef, row⟩ := by rw [← hmethod, ← hrow]
          refine ⟨a? :: contributed, ?_, ?_⟩
          · rw [List.filter_cons_of_pos (by simpa using hparent)]
            exact .cons ha hcontributed
          · cases a? <;> simp [hrow]
        · have hparent : r.parent ≠ ⟨.methodDef, row⟩ := fun heq =>
            hrow (congrArg CodedIndex.row heq)
          refine ⟨contributed, ?_, ?_⟩
          · rwa [List.filter_cons_of_neg (by simpa using hparent)]
          · cases a? <;> simp [hrow]
      · have hparent : r.parent ≠ ⟨.methodDef, row⟩ := fun heq =>
          hmethod (congrArg CodedIndex.table heq)
        rw [methodAttribute?, if_neg hmethod] at hr
        cases hr
        refine ⟨contributed, ?_, rfl⟩
        rwa [List.filter_cons_of_neg (by simpa using hparent)]

end Reading

/-! ### Attributes of the methods that are told -/

/-- A method has the attributes that are read for its row. -/
theorem Introspection.attributes_of_method {x : Introspection} {typeParams : Array String} {i : Nat}
    {r : MethodDefRow} {d : MethodDefinition} (h : x.method typeParams i r = .ok d) :
    d.attributes = x.attributes.get r.rid := by
  obtain ⟨blob, -, h⟩ := seq_eq_ok_iff.mp h
  obtain ⟨signature, -, h⟩ := seq_eq_ok_iff.mp h
  obtain ⟨declared, -, h⟩ := seq_eq_ok_iff.mp h
  obtain ⟨parameters, -, h⟩ := seq_eq_ok_iff.mp h
  obtain ⟨returnType, -, h⟩ := seq_eq_ok_iff.mp h
  obtain ⟨name, -, h⟩ := seq_eq_ok_iff.mp h
  cases h
  rfl

namespace Introspection

variable {m : Metadata} {x : Introspection} {ts : List TypeDefinition}
  (hx : x.JoinedFrom m)
  (htells : List.Forall₂ (fun e t => x.Tells e.1 e.2 t) x.index.definitions.toList.zipIdx ts)
include hx

/-- A method is read from a row that has the number behind its position. -/
theorem attributes_of_reads {typeParams : Array String} {p : Nat} {d : MethodDefinition}
    (h : x.Reads typeParams p d) : d.attributes = x.attributes.get (p + 1) := by
  obtain ⟨row, hrow, hmethod⟩ := h
  obtain ⟨cells, rfl⟩ := TableStream.exists_cells_of_rows hx.methods hrow
  exact attributes_of_method hmethod

include htells

/-- If all types are told, their rows fit tokens. -/
theorem size_definitions_lt : x.index.definitions.size < 2 ^ 24 := by
  by_contra hsize
  have hi : 2 ^ 24 - 1 < x.index.definitions.size := by omega
  have hrow : x.index.definitions[2 ^ 24 - 1]? = some x.index.definitions[2 ^ 24 - 1] :=
    Array.getElem?_eq_getElem hi
  have hmem : (x.index.definitions[2 ^ 24 - 1], 2 ^ 24 - 1) ∈
      x.index.definitions.toList.zipIdx := by
    rw [List.mk_mem_zipIdx_iff_getElem?, Array.getElem?_toList, hrow]
  obtain ⟨t, -, htold⟩ := exists_of_mem_left htells hmem
  obtain ⟨name, hname, -⟩ := htold.name
  obtain ⟨cells, hcells⟩ := TableStream.exists_cells_of_rows hx.definitions hrow
  have hrid : x.index.definitions[2 ^ 24 - 1].rid = 2 ^ 24 := by
    rw [hcells]
    rfl
  dsimp only at hname
  rw [hrid] at hname
  have htable := ((TypeIndex.nameWithin_eq_ok_iff hx.definitions hx.index).mp hname).table_eq
  revert htable
  decide

/-- **The methods of every type have the attributes** that the tables say. -/
theorem exists_hasAttributes
    (hparents : ∀ c r, m.tables.row? MemberRefRow c = some r → r.parent.row < 2 ^ 24) :
    ∃ rows, m.tables.rows CustomAttributeRow = .ok rows ∧
      ∀ {typeParams : Array String} {p : Nat} {d : MethodDefinition}, x.Reads typeParams p d →
        HasAttributes m x.index.definitions x.methods.size rows p d := by
  obtain ⟨rows, found, hrows, hfound, hattributes⟩ := readAttributes_eq_ok_iff.mp hx.attributes
  rw [TypeIndex.metadata_of_build hx.index] at hrows
  refine ⟨rows, hrows, fun {typeParams p d} hreads => ?_⟩
  obtain ⟨contributed, hcontributed, hget⟩ := exists_get_attributes hx.definitions hx.index
    (size_definitions_lt hx htells) hparents hfound (p + 1)
  refine ⟨contributed, hcontributed, ?_⟩
  rw [attributes_of_reads hx hreads, ← hattributes, hget]

end Introspection

/-! ### Main result -/

/-- **The attributes of methods are joined.** If types are told, every method has the attributes
that the tables say, provided that the parents of references fit tokens. Only the marks on methods
count, once the table of attributes can be read. And no types are told if a method is marked by a
reference that does not exist. -/
theorem Metadata.types_join_attributes (m : Metadata) :
    (∀ ts, m.types = .ok ts →
      (∀ c r, m.tables.row? MemberRefRow c = some r → r.parent.row < 2 ^ 24) →
      ∃ (x : Introspection) (rows : Array CustomAttributeRow), x.JoinedFrom m ∧
        m.tables.rows CustomAttributeRow = .ok rows ∧
        List.Forall₂ (fun e t => x.Tells e.1 e.2 t ∧
          List.Forall₂ (HasAttributes m x.index.definitions x.methods.size rows)
            (methodRun x.index.definitions x.methods.size e.2).positions t.methods)
          x.index.definitions.toList.zipIdx ts) ∧
    (∀ m' rows rows', AgreesBeside .customAttribute m m' →
      m.tables.rows CustomAttributeRow = .ok rows →
      m'.tables.rows CustomAttributeRow = .ok rows' →
      methodMarks rows' = methodMarks rows → m'.types = m.types) ∧
    ∀ rid r, m.tables.row? CustomAttributeRow rid = some r → r.parent.table = .methodDef →
      r.constructor.table = .memberRef → m.tables.row? MemberRefRow r.constructor.row = none →
      ∃ e, m.types = .error e := by
  refine ⟨fun ts h hparents => ?_, fun m' rows rows' hagrees hrows hrows' hmarks =>
    types_eq_of_methodMarks_eq hagrees hrows hrows' hmarks, fun rid r hr hmethod href hnone => ?_⟩
  · obtain ⟨x, hx, htells⟩ := types_eq_ok_iff.mp h
    obtain ⟨rows, hrows, hattributes⟩ := Introspection.exists_hasAttributes hx htells hparents
    exact ⟨x, rows, hx, hrows, htells.imp fun e t htold =>
      ⟨htold, htold.methods.imp fun p d hreads => hattributes hreads⟩⟩
  · cases h : m.types with
    | error e => exact ⟨e, rfl⟩
    | ok ts =>
        obtain ⟨x, hx, -⟩ := types_eq_ok_iff.mp h
        obtain ⟨rows, found, hrows, hfound, -⟩ := readAttributes_eq_ok_iff.mp hx.attributes
        have hmetadata := TypeIndex.metadata_of_build hx.index
        rw [hmetadata] at hrows
        have hmem : r ∈ rows.toList := by
          rw [TableStream.row?_of_rows hrows] at hr
          split at hr
          · cases hr
          · exact Array.mem_toList_iff.mpr (Array.mem_of_getElem? hr)
        obtain ⟨f, -, hf⟩ := exists_of_mem_left hfound hmem
        rw [methodAttribute?, if_pos hmethod, constructorClass, href, hmetadata, hnone] at hf
        cases hf

/-! ### Sample -/

/-- The sample has one reference to a constructor, that of a class in another module. -/
theorem rows_references_sample (between : CustomAttributeRow) :
    (sample between).tables.rows MemberRefRow = .ok #[⟨1, ⟨.typeRef, 1⟩, 0, 0⟩] :=
  Table.rows_of_bytes sampleLayout (by decide :
    ∀ r ∈ [(⟨1, ⟨.typeRef, 1⟩, 0, 0⟩ : MemberRefRow)], TableRow.Fits sampleLayout r) rfl

theorem row?_references_sample (between : CustomAttributeRow) (rid : Nat) {r : MemberRefRow}
    (h : (sample between).tables.row? MemberRefRow rid = some r) :
    rid = 1 ∧ r = ⟨1, ⟨.typeRef, 1⟩, 0, 0⟩ := by
  rw [TableStream.row?_of_rows (rows_references_sample between)] at h
  split at h
  · cases h
  · obtain ⟨hlt, heq⟩ := Array.getElem?_eq_some_iff.mp h
    have hrid : rid = 1 := by
      change rid - 1 < 1 at hlt
      omega
    subst hrid
    exact ⟨rfl, heq.symm⟩

/-- Samples differ in their attributes only. -/
theorem agreesBeside_sample (between between' : CustomAttributeRow) :
    Metadata.AgreesBeside .customAttribute (sample between) (sample between') := by
  have hbytes (t : TableId) (h : t ≠ .customAttribute) :
      (sample between').tables.bytes? t = (sample between).tables.bytes? t := by
    simp only [sample, TableStream.bytes?, List.lookup_cons, beq_false_of_ne h]
  exact .of_bytes rfl rfl rfl hbytes

/-- The reference in the sample belongs to a class of another module. -/
theorem attributeOf_sample_reference :
    AttributeOf (sample strayAttribute) sampleTypes.toArray 3
      ⟨1, ⟨.methodDef, 1⟩, ⟨.memberRef, 1⟩, 0⟩ (some ⟨"Attributes", "Marker"⟩) := by
  have htoken : (TableId.typeRef.token 1).Denotes .typeRef 1 := TableId.denotes_token _ (by decide)
  have hmember : (sample strayAttribute).tables.row? MemberRefRow 1 =
      some ⟨1, ⟨.typeRef, 1⟩, 0, 0⟩ := by
    rw [TableStream.row?_of_rows (rows_references_sample strayAttribute)]
    rfl
  have hrow : (sample strayAttribute).tables.row? TypeRefRow (TableId.typeRef.token 1).row =
      some ⟨1, ⟨.assemblyRef, 1⟩, 1, 8⟩ := by
    decide +kernel
  have hname : (sample strayAttribute).string 1 = .ok "Marker" := by decide +kernel
  have hns : (sample strayAttribute).string 8 = .ok "Attributes" := by decide +kernel
  exact .of_class (.member hmember (.named (.inr rfl) htoken))
    (.reference htoken.1 hrow nofun hname hns)

/-- The second method of the sample belongs to the second type. -/
theorem attributeOf_sample_method :
    AttributeOf (sample strayAttribute) sampleTypes.toArray 3
      ⟨3, ⟨.methodDef, 1⟩, ⟨.methodDef, 2⟩, 0⟩ (some ⟨"Attributes", "Marker"⟩) := by
  obtain ⟨o, ho, howner⟩ := exists_methodOwners sampleTypes.toArray (by decide : 1 < 3)
  obtain rfl : 2 = o := Option.some.inj (Eq.trans (by decide +kernel) ho)
  have hname : (sample strayAttribute).Named maxLevels (TableId.typeDef.token 2)
      (.topLevel "Attributes" "Marker") :=
    (TypeIndex.nameWithin_eq_ok_iff (rows_types_sample strayAttribute) rfl).mp name_sample_marker
  exact .of_class (.owned (by decide) howner (TableId.denotes_token _ (by decide))) hname

/-- The first method of the sample has the two marks, whatever else is recorded between them, unless
this is a mark on a method by a reference that does not exist. -/
theorem Metadata.types_join_attributes_sample :
    (∃ t d ts, (sample strayAttribute).types = .ok (t :: ts) ∧ t.methods = [d] ∧
      d.attributes = [⟨"Attributes", "Marker"⟩, ⟨"Attributes", "Marker"⟩]) ∧
    (sample ⟨2, ⟨.param, 9⟩, ⟨.memberRef, 8⟩, 0⟩).types = (sample strayAttribute).types ∧
    ∃ e, (sample ⟨2, ⟨.methodDef, 1⟩, ⟨.memberRef, 7⟩, 0⟩).types = .error e := by
  refine ⟨?_, ?_, ?_⟩
  · obtain ⟨ts, h⟩ : ∃ ts, (sample strayAttribute).types = .ok ts := ⟨_, types_sample⟩
    obtain ⟨x, rows, hx, hrows, hall⟩ := (types_join_attributes (sample strayAttribute)).1 ts h (by
      intro c r hr
      obtain ⟨-, rfl⟩ := row?_references_sample strayAttribute c hr
      decide)
    have hdefinitions : sampleTypes.toArray = x.index.definitions :=
      Except.ok.inj ((rows_types_sample strayAttribute).symm.trans hx.definitions)
    have hmethods : sampleMethods.toArray = x.methods :=
      Except.ok.inj ((rows_methods_sample strayAttribute).symm.trans hx.methods)
    obtain rfl : (sampleAttributes strayAttribute).toArray = rows :=
      Except.ok.inj ((rows_attributes_sample (by decide) rfl).symm.trans hrows)
    rw [← hdefinitions, ← hmethods] at hall
    cases hall with
    | cons hfirst _ =>
        obtain ⟨d, others, ⟨contributed, hcontributed, hd⟩, hothers, hlist⟩ :=
          List.forall₂_cons_left_iff.mp hfirst.2
        obtain rfl := List.forall₂_nil_left_iff.mp hothers
        obtain ⟨a?, rest, ha, hrest, rfl⟩ := List.forall₂_cons_left_iff.mp hcontributed
        obtain ⟨b?, others, hb, hnone, rfl⟩ := List.forall₂_cons_left_iff.mp hrest
        obtain rfl := List.forall₂_nil_left_iff.mp hnone
        cases ha.unique attributeOf_sample_reference
        cases hb.unique attributeOf_sample_method
        exact ⟨_, d, _, h, hlist, hd⟩
  · exact (types_join_attributes (sample strayAttribute)).2.1 _ _ _
      (agreesBeside_sample _ _) (rows_attributes_sample (by decide) rfl)
      (rows_attributes_sample (by decide) rfl) rfl
  · refine (types_join_attributes _).2.2 2 ⟨2, ⟨.methodDef, 1⟩, ⟨.memberRef, 7⟩, 0⟩ ?_ rfl rfl ?_
    · rw [TableStream.row?_of_rows (rows_attributes_sample (by decide) rfl)]
      rfl
    · rw [TableStream.row?_of_rows (rows_references_sample _)]
      rfl

end AliasStubs
