import AliasStubs.Assembly.Naming
import AliasStubs.Proofs.Metadata.Walk

/-!
# Names of types in metadata

The name behind a token is found along a chain of tables: a definition is nested in the class that
encloses it, and a reference in the reference that is its scope. The relation `Metadata.Named` says
so row by row, in terms of the tables alone, and within a budget of levels it holds exactly if the
name is found.

## Main definitions

* `Token.Denotes` : a token stands for a row of a table.
* `Metadata.enclosing?` : the class that encloses a type definition.
* `Metadata.Named` : a token has a name, told within a budget of levels.

## Main results

* `TableId.denotes_token` : the token of a row that fits stands for that row.
* `TypeIndex.nameWithin_eq_ok_iff` : **a name is found exactly if the tables say so**.
-/

namespace AliasStubs

/-! ### Tokens -/

namespace Token

/-- A token stands for a row of a table. -/
def Denotes (t : Token) (table : TableId) (row : Nat) : Prop :=
  t.table = table.number ∧ t.row = row

/-- The low bits of a token are its row. -/
theorem row_eq_mod (t : Token) : t.row = t.value % 2 ^ 24 := by
  rw [row, show (0xFFFFFF : Nat) = 2 ^ 24 - 1 from rfl, Nat.and_two_pow_sub_one_eq_mod]

/-- The others are its table. -/
theorem table_eq_div (t : Token) : t.table = t.value / 2 ^ 24 := by
  rw [table, Nat.shiftRight_eq_div_pow]

/-- A row has one token. -/
theorem Denotes.unique {t t' : Token} {table : TableId} {row : Nat}
    (h : t.Denotes table row) (h' : t'.Denotes table row) : t = t' := by
  have hsplit (t : Token) : t.value = t.table * 2 ^ 24 + t.row := by
    rw [t.table_eq_div, t.row_eq_mod]
    omega
  rcases t with ⟨value⟩
  rcases t' with ⟨value'⟩
  have hvalue := hsplit ⟨value⟩
  have hvalue' := hsplit ⟨value'⟩
  rw [h.1, h.2] at hvalue
  rw [h'.1, h'.2] at hvalue'
  exact congrArg Token.mk (hvalue.trans hvalue'.symm)

end Token

namespace TableId

/-- The number of a table tells which table it is. -/
theorem eq_of_number_eq {t t' : TableId} (h : t.number = t'.number) : t = t' := by
  have hrow := t.all_getElem?_number
  rw [h, t'.all_getElem?_number] at hrow
  exact (Option.some.inj hrow).symm

/-- The low bits of a row stay in its token. -/
theorem row_token (t : TableId) (row : Nat) : (t.token row).row = row % 2 ^ 24 := by
  rw [Token.row_eq_mod, token, Nat.or_mod_two_pow, Nat.shiftLeft_eq, Nat.mul_mod_left, Nat.zero_or]

/-- The others are put over the number of the table. -/
theorem table_token (t : TableId) (row : Nat) :
    (t.token row).table = t.number ||| row / 2 ^ 24 := by
  rw [Token.table, token, Nat.shiftRight_or_distrib, Nat.shiftLeft_shiftRight,
    Nat.shiftRight_eq_div_pow]

/-- **The token of a row that fits stands for that row.** -/
theorem denotes_token (t : TableId) {row : Nat} (h : row < 2 ^ 24) :
    (t.token row).Denotes t row := by
  constructor
  · rw [t.table_token, Nat.div_eq_of_lt h, Nat.or_zero]
  · rw [t.row_token, Nat.mod_eq_of_lt h]

end TableId

/-! ### What the tables say -/

namespace Metadata

/-- The row of the class that encloses the type definition in a row: the last one recorded. -/
def enclosing? (m : Metadata) (row : Nat) : Option Nat :=
  match m.tables.rows NestedClassRow with
  | .ok nested => ((nested.toList.filter (·.nestedClass = row)).map (·.enclosingClass)).getLast?
  | .error _ => none

/-- The type behind a token **has a name** that can be told within a budget of levels. Every type of
its chain takes one level. -/
inductive Named (m : Metadata) : (levels : Nat) → Token → TypeName → Prop
  /-- A definition that no class encloses. -/
  | definition {levels : Nat} {t : Token} {d : TypeDefRow} {ns name : String}
      (htable : t.table = TableId.typeDef.number)
      (hrow : m.tables.row? TypeDefRow t.row = some d) (htop : m.enclosing? t.row = none)
      (hname : m.string d.typeName = .ok name) (hns : m.string d.typeNamespace = .ok ns) :
      Named m (levels + 1) t (.topLevel ns name)
  /-- A definition that a class encloses. -/
  | nestedDefinition {levels outer : Nat} {t : Token} {d : TypeDefRow} {name : String}
      {declaring : TypeName} (htable : t.table = TableId.typeDef.number)
      (hrow : m.tables.row? TypeDefRow t.row = some d) (houter : m.enclosing? t.row = some outer)
      (hname : m.string d.typeName = .ok name)
      (hdeclaring : Named m levels (TableId.typeDef.token outer) declaring) :
      Named m (levels + 1) t (declaring.nest name)
  /-- A reference to a type that is not nested. -/
  | reference {levels : Nat} {t : Token} {r : TypeRefRow} {ns name : String}
      (htable : t.table = TableId.typeRef.number)
      (hrow : m.tables.row? TypeRefRow t.row = some r)
      (htop : r.resolutionScope.table = .typeRef → r.resolutionScope.row = 0)
      (hname : m.string r.typeName = .ok name) (hns : m.string r.typeNamespace = .ok ns) :
      Named m (levels + 1) t (.topLevel ns name)
  /-- A reference to a type that is nested in another one that is referred to. -/
  | nestedReference {levels outer : Nat} {t : Token} {r : TypeRefRow} {name : String}
      {declaring : TypeName} (htable : t.table = TableId.typeRef.number)
      (hrow : m.tables.row? TypeRefRow t.row = some r)
      (hscope : r.resolutionScope = ⟨.typeRef, outer⟩) (houter : outer ≠ 0)
      (hname : m.string r.typeName = .ok name)
      (hdeclaring : Named m levels (TableId.typeRef.token outer) declaring) :
      Named m (levels + 1) t (declaring.nest name)

/-- Only definitions and references have names. -/
theorem Named.table_eq {m : Metadata} {levels : Nat} {t : Token} {n : TypeName}
    (h : m.Named levels t n) :
    t.table = TableId.typeDef.number ∨ t.table = TableId.typeRef.number := by
  cases h with
  | definition htable | nestedDefinition htable => exact .inl htable
  | reference htable | nestedReference htable => exact .inr htable

/-- A definition is no reference. -/
theorem typeDef_ne_typeRef {n : Nat} (h : n = TableId.typeDef.number)
    (h' : n = TableId.typeRef.number) : False :=
  absurd (h.symm.trans h') (by decide)

/-- **A type has one name**, within any budgets that suffice. -/
theorem Named.unique {m : Metadata} {levels levels' : Nat} {t : Token} {n n' : TypeName}
    (h : m.Named levels t n) (h' : m.Named levels' t n') : n = n' := by
  induction h generalizing levels' n' with
  | definition htable hrow htop hname hns =>
      cases h' with
      | definition _ hrow' _ hname' hns' =>
          cases hrow.symm.trans hrow'
          cases hname.symm.trans hname'
          cases hns.symm.trans hns'
          rfl
      | nestedDefinition _ _ houter' => cases htop.symm.trans houter'
      | reference htable' | nestedReference htable' =>
          exact (typeDef_ne_typeRef htable htable').elim
  | nestedDefinition htable hrow houter hname _ ih =>
      cases h' with
      | definition _ _ htop' => cases houter.symm.trans htop'
      | nestedDefinition _ hrow' houter' hname' hdeclaring' =>
          cases hrow.symm.trans hrow'
          cases houter.symm.trans houter'
          cases hname.symm.trans hname'
          rw [ih hdeclaring']
      | reference htable' | nestedReference htable' =>
          exact (typeDef_ne_typeRef htable htable').elim
  | reference htable hrow htop hname hns =>
      cases h' with
      | reference _ hrow' _ hname' hns' =>
          cases hrow.symm.trans hrow'
          cases hname.symm.trans hname'
          cases hns.symm.trans hns'
          rfl
      | nestedReference _ hrow' hscope' houter' =>
          cases hrow.symm.trans hrow'
          rw [hscope'] at htop
          exact absurd (htop rfl) houter'
      | definition htable' | nestedDefinition htable' =>
          exact (typeDef_ne_typeRef htable' htable).elim
  | nestedReference htable hrow hscope houter hname _ ih =>
      cases h' with
      | reference _ hrow' htop' =>
          cases hrow.symm.trans hrow'
          rw [hscope] at htop'
          exact absurd (htop' rfl) houter
      | nestedReference _ hrow' hscope' _ hname' hdeclaring' =>
          cases hrow.symm.trans hrow'
          cases hscope.symm.trans hscope'
          cases hname.symm.trans hname'
          rw [ih hdeclaring']
      | definition htable' | nestedDefinition htable' =>
          exact (typeDef_ne_typeRef htable' htable).elim

end Metadata

/-! ### The index says the same -/

namespace TypeIndex

variable {m : Metadata} {x : TypeIndex}

/-- A reference to a type is nested exactly if its scope is another such reference. -/
theorem scope?_eq_some_iff {r : TypeRefRow} {s : Token} : scope? r = some s ↔
    ∃ outer, r.resolutionScope = ⟨.typeRef, outer⟩ ∧ outer ≠ 0 ∧
      TableId.typeRef.token outer = s := by
  rcases hscope : r.resolutionScope with ⟨table, row⟩
  rw [scope?, hscope]
  constructor
  · intro h
    split at h
    · rename_i hnested
      obtain rfl : table = .typeRef := hnested.1
      exact ⟨row, rfl, hnested.2, Option.some.inj h⟩
    · cases h
  · rintro ⟨outer, heq, houter, rfl⟩
    cases heq
    rw [if_pos ⟨rfl, houter⟩]
    rfl

theorem scope?_eq_none_iff {r : TypeRefRow} : scope? r = none ↔
    (r.resolutionScope.table = .typeRef → r.resolutionScope.row = 0) := by
  rw [scope?]
  split
  · rename_i hnested
    exact iff_of_false nofun fun h => hnested.2 (h hnested.1)
  · rename_i htop
    refine iff_of_true rfl fun htable => ?_
    by_contra hrow
    exact htop ⟨htable, hrow⟩

/-- An index is one of the metadata that it was built from. -/
theorem metadata_of_build {definitions : Array TypeDefRow} (h : build m definitions = .ok x) :
    x.metadata = m := by
  obtain ⟨nested, -, h⟩ := seq_eq_ok_iff.mp h
  cases h
  rfl

/-- It tells the enclosing classes that the metadata record. -/
theorem enclosing?_of_build {definitions : Array TypeDefRow} (h : build m definitions = .ok x)
    (row : Nat) : x.enclosing? row = m.enclosing? row := by
  obtain ⟨nested, hnested, h⟩ := seq_eq_ok_iff.mp h
  cases h
  rw [enclosing?, Grouping.last?_eq_getLast?, Grouping.get_ofList, Metadata.enclosing?, hnested,
    List.filter_map, List.map_map]
  rfl

section Names

variable (hrows : m.tables.rows TypeDefRow = .ok x.definitions)
  (hbuild : build m x.definitions = .ok x)
include hrows

theorem definition?_eq (row : Nat) : x.definition? row = m.tables.row? TypeDefRow row := by
  rw [definition?, TableStream.row?_of_rows hrows]

/-- A definition has the number of its row. -/
theorem rid_of_definition? {row : Nat} {d : TypeDefRow} (h : x.definition? row = some d) :
    d.rid = row := by
  rw [definition?] at h
  split at h
  · cases h
  · rename_i hrow
    obtain ⟨cells, rfl⟩ := TableStream.exists_cells_of_rows hrows h
    exact Nat.sub_add_cancel (Nat.pos_of_ne_zero hrow)

include hbuild

/-- The name behind the token of a definition. -/
theorem nameWithin_definition_eq_ok_iff {levels : Nat} {t : Token} {n : TypeName}
    (htable : t.table = TableId.typeDef.number) :
    x.nameWithin (levels + 1) t = .ok n ↔ ∃ d name, m.tables.row? TypeDefRow t.row = some d ∧
      m.string d.typeName = .ok name ∧ x.qualify ((m.enclosing? t.row).map fun outer =>
        x.nameWithin levels (TableId.typeDef.token outer)) d.typeNamespace name = .ok n := by
  obtain rfl := metadata_of_build hbuild
  rw [nameWithin, if_pos htable, ← definition?_eq hrows]
  cases hd : x.definition? t.row with
  | none => exact iff_of_false nofun fun ⟨_, _, h, _⟩ => nomatch h
  | some d =>
      simp only [rid_of_definition? hrows hd, enclosing?_of_build hbuild, Option.some.injEq,
        exists_and_left, exists_eq_left']
      exact seq_eq_ok_iff

omit hrows in
/-- The name behind the token of a reference. -/
theorem nameWithin_reference_eq_ok_iff {levels : Nat} {t : Token} {n : TypeName}
    (htable : t.table = TableId.typeRef.number) :
    x.nameWithin (levels + 1) t = .ok n ↔ ∃ r name, m.tables.row? TypeRefRow t.row = some r ∧
      m.string r.typeName = .ok name ∧
      x.qualify ((scope? r).map (x.nameWithin levels)) r.typeNamespace name = .ok n := by
  obtain rfl := metadata_of_build hbuild
  have hdef : t.table ≠ TableId.typeDef.number := by
    rw [htable]
    decide
  rw [nameWithin, if_neg hdef, if_pos htable]
  cases x.metadata.tables.row? TypeRefRow t.row with
  | none => exact iff_of_false nofun fun ⟨_, _, h, _⟩ => nomatch h
  | some r =>
      simp only [Option.some.injEq, exists_and_left, exists_eq_left']
      exact seq_eq_ok_iff

/-- **A name is found exactly if the tables say so**, within any budget of levels. -/
theorem nameWithin_eq_ok_iff {levels : Nat} {t : Token} {n : TypeName} :
    x.nameWithin levels t = .ok n ↔ m.Named levels t n := by
  have hmetadata := metadata_of_build hbuild
  induction levels generalizing t n with
  | zero => exact iff_of_false nofun nofun
  | succ levels ih =>
      constructor
      · intro h
        by_cases hdef : t.table = TableId.typeDef.number
        · obtain ⟨d, name, hrow, hname, h⟩ :=
            (nameWithin_definition_eq_ok_iff hrows hbuild hdef).mp h
          cases houter : m.enclosing? t.row with
          | none =>
              rw [houter] at h
              obtain ⟨ns, hns, rfl⟩ := map_eq_ok_iff.mp h
              exact .definition hdef hrow houter hname (hmetadata ▸ hns)
          | some outer =>
              rw [houter] at h
              obtain ⟨declaring, hdeclaring, rfl⟩ := map_eq_ok_iff.mp h
              exact .nestedDefinition hdef hrow houter hname (ih.mp hdeclaring)
        · by_cases href : t.table = TableId.typeRef.number
          · obtain ⟨r, name, hrow, hname, h⟩ :=
              (nameWithin_reference_eq_ok_iff hbuild href).mp h
            cases hscope : scope? r with
            | none =>
                rw [hscope] at h
                obtain ⟨ns, hns, rfl⟩ := map_eq_ok_iff.mp h
                exact .reference href hrow (scope?_eq_none_iff.mp hscope) hname (hmetadata ▸ hns)
            | some s =>
                rw [hscope] at h
                obtain ⟨declaring, hdeclaring, rfl⟩ := map_eq_ok_iff.mp h
                obtain ⟨outer, hr, houter, rfl⟩ := scope?_eq_some_iff.mp hscope
                exact .nestedReference href hrow hr houter hname (ih.mp hdeclaring)
          · rw [nameWithin, if_neg hdef, if_neg href] at h
            cases h
      · intro h
        cases h with
        | definition htable hrow htop hname hns =>
            refine (nameWithin_definition_eq_ok_iff hrows hbuild htable).mpr
              ⟨_, _, hrow, hname, ?_⟩
            rw [htop]
            exact map_eq_ok_iff.mpr ⟨_, hmetadata ▸ hns, rfl⟩
        | nestedDefinition htable hrow houter hname hdeclaring =>
            refine (nameWithin_definition_eq_ok_iff hrows hbuild htable).mpr
              ⟨_, _, hrow, hname, ?_⟩
            rw [houter]
            exact map_eq_ok_iff.mpr ⟨_, ih.mpr hdeclaring, rfl⟩
        | reference htable hrow htop hname hns =>
            refine (nameWithin_reference_eq_ok_iff hbuild htable).mpr
              ⟨_, _, hrow, hname, ?_⟩
            rw [scope?_eq_none_iff.mpr htop]
            exact map_eq_ok_iff.mpr ⟨_, hmetadata ▸ hns, rfl⟩
        | nestedReference htable hrow hscope houter hname hdeclaring =>
            refine (nameWithin_reference_eq_ok_iff hbuild htable).mpr
              ⟨_, _, hrow, hname, ?_⟩
            rw [scope?_eq_some_iff.mpr ⟨_, hscope, houter, rfl⟩]
            exact map_eq_ok_iff.mpr ⟨_, ih.mpr hdeclaring, rfl⟩

end Names

end TypeIndex

end AliasStubs
