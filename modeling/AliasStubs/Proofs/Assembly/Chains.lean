import AliasStubs.Proofs.Assembly.Names
import AliasStubs.Proofs.Metadata.Rows
import Mathlib.Logic.Relation

/-!
# Names follow the nesting of types

A row of the type definitions, or of the type references, leads to the row of the type around it, if
there is one. So the rows form chains, which end at types that are not nested. The tables are not
trusted: a row may lead to itself again, or to a row that is not there.

Finding the name of a type is reading the names along its chain. It succeeds **exactly if the chain
ends soon enough and all of its names can be read**, and otherwise it stops where the first name
cannot be read, or at the limit.

## Main definitions

* `TypeTable` : the two tables whose rows name types.
* `Metadata.outer?` : the row of the type around the one in a row.
* `Metadata.Chain` : all rows from a row up to the outermost type around it.
* `Metadata.chainUpTo` : the first rows of a chain, which may go on.
* `Metadata.Readable` : the names along a chain can be read.
* `TypeName.Spells` : these names, in turn, make up the name of a type.

## Main results

* `TypeIndex.nameWithin_succ` : what one level does.
* `TypeIndex.nameWithin_eq_ok_iff_of_chain` : a chain that ends is read to the name it spells.
* `TypeIndex.nameWithin_of_long` : a chain that does not end in time is never read to a name.
* `TypeIndex.name_follows_chain` : **names follow chains**.
-/

namespace AliasStubs

/-- The tables whose rows name types. -/
inductive TypeTable
  /-- The types that metadata define. -/
  | definitions
  /-- The types that they refer to. -/
  | references
  deriving DecidableEq, Repr

namespace TypeTable

/-- Which of all tables it is. -/
def id : TypeTable → TableId
  | definitions => .typeDef
  | references => .typeRef

/-- What is wrong with a token that names none of its rows. -/
def missing : TypeTable → Token → Defect
  | definitions => .badTypeDef
  | references => .badTypeRef

end TypeTable

/-! ### Rows and chains -/

namespace Metadata

/-- The name and the namespace that are recorded in a row, as indexes into the identifier heap. -/
def entry? (m : Metadata) : TypeTable → (row : Nat) → Option (Nat × Nat)
  | .definitions, row =>
    (m.tables.row? TypeDefRow row).map fun d => (d.typeName, d.typeNamespace)
  | .references, row =>
    (m.tables.row? TypeRefRow row).map fun r => (r.typeName, r.typeNamespace)

/-- The name in a row, if the row exists and its name can be read. -/
def nameIn (m : Metadata) (t : TypeTable) (row : Nat) : Except Failure String :=
  match m.entry? t row with
  | some (name, _) => m.string name
  | none => .error (.malformed (t.missing (t.id.token row)))

/-- The namespace in a row, if the row exists and its namespace can be read. -/
def namespaceIn (m : Metadata) (t : TypeTable) (row : Nat) : Except Failure String :=
  match m.entry? t row with
  | some (_, ns) => m.string ns
  | none => .error (.malformed (t.missing (t.id.token row)))

/-- The row of the type around the type in a row, if this is nested: for a definition the last class
that is recorded to enclose it, for a reference the reference that is its scope. -/
def outer? (m : Metadata) : TypeTable → (row : Nat) → Option Nat
  | .definitions, row => m.enclosing? row
  | .references, row =>
    (m.tables.row? TypeRefRow row).bind fun r =>
      if r.resolutionScope.table = .typeRef ∧ r.resolutionScope.row ≠ 0 then
        some r.resolutionScope.row
      else
        none

/-- The **chain** of a row: the row itself and all rows around it, the outermost type last. -/
inductive Chain (m : Metadata) (t : TypeTable) : (row : Nat) → (rows : List Nat) → Prop
  | outermost {row : Nat} (h : m.outer? t row = none) : Chain m t row [row]
  | nested {row outer : Nat} {rows : List Nat} (h : m.outer? t row = some outer)
      (rest : Chain m t outer rows) : Chain m t row (row :: rows)

/-- A row **leads to** the row of the type around it. -/
def LeadsTo (m : Metadata) (t : TypeTable) (inner outer : Nat) : Prop :=
  m.outer? t inner = some outer

/-- The first rows of the chain of a row, one for each level, as far as the chain goes. -/
def chainUpTo (m : Metadata) (t : TypeTable) : (levels row : Nat) → List Nat
  | 0, _ => []
  | levels + 1, row => row :: ((m.outer? t row).map (chainUpTo m t levels)).getD []

/-- The names along a chain, and the namespace of its outermost type, **can be read**. -/
structure Readable (m : Metadata) (t : TypeTable) (rows : List Nat) (ns : String)
    (names : List String) : Prop where
  names : List.Forall₂ (fun row name => m.nameIn t row = .ok name) rows names
  namespace_outermost : ∃ row ∈ rows.getLast?, m.namespaceIn t row = .ok ns

variable {m : Metadata} {t : TypeTable}

/-- A row has one chain. -/
theorem Chain.unique {row : Nat} {rows rows' : List Nat} (h : m.Chain t row rows)
    (h' : m.Chain t row rows') : rows = rows' := by
  induction h generalizing rows' with
  | outermost hnone =>
      cases h' with
      | outermost => rfl
      | nested hsome => cases hnone.symm.trans hsome
  | nested hsome _ ih =>
      cases h' with
      | outermost hnone => cases hnone.symm.trans hsome
      | nested hsome' rest' =>
          cases hsome.symm.trans hsome'
          rw [ih rest']

theorem Chain.ne_nil {row : Nat} {rows : List Nat} (h : m.Chain t row rows) : rows ≠ [] := by
  cases h with
  | outermost => exact List.cons_ne_nil _ _
  | nested => exact List.cons_ne_nil _ _

/-- The chain of a row further out is shorter. -/
theorem Chain.exists_of_transGen {row row' : Nat} {rows : List Nat} (h : m.Chain t row rows)
    (hleads : Relation.TransGen (m.LeadsTo t) row row') :
    ∃ rows', m.Chain t row' rows' ∧ rows'.length < rows.length := by
  induction hleads using Relation.TransGen.head_induction_on generalizing rows with
  | single hsome =>
      cases h with
      | outermost hnone => cases hnone.symm.trans hsome
      | nested hsome' rest =>
          cases hsome.symm.trans hsome'
          exact ⟨_, rest, Nat.lt_succ_self _⟩
  | head hsome _ ih =>
      cases h with
      | outermost hnone => cases hnone.symm.trans hsome
      | nested hsome' rest =>
          cases hsome.symm.trans hsome'
          obtain ⟨rows', hrows', hlt⟩ := ih rest
          exact ⟨rows', hrows', Nat.lt_succ_of_lt hlt⟩

/-- **A row from which a circle is reached has no chain.** -/
theorem not_chain_of_circle {row row' : Nat} {rows : List Nat}
    (hreached : Relation.ReflTransGen (m.LeadsTo t) row row')
    (hcircle : Relation.TransGen (m.LeadsTo t) row' row') :
    ¬ m.Chain t row rows := by
  intro h
  have hsub : ∃ rows', m.Chain t row' rows' := by
    rcases Relation.reflTransGen_iff_eq_or_transGen.mp hreached with rfl | htrans
    · exact ⟨rows, h⟩
    · obtain ⟨rows', hrows', -⟩ := h.exists_of_transGen htrans
      exact ⟨rows', hrows'⟩
  obtain ⟨rows', hrows'⟩ := hsub
  obtain ⟨shorter, hshorter, hlt⟩ := hrows'.exists_of_transGen hcircle
  rw [hshorter.unique hrows'] at hlt
  exact Nat.lt_irrefl _ hlt

theorem chainUpTo_of_outermost {row : Nat} (h : m.outer? t row = none) (levels : Nat) :
    m.chainUpTo t (levels + 1) row = [row] := by
  rw [chainUpTo, h]
  rfl

theorem chainUpTo_of_nested {row outer : Nat} (h : m.outer? t row = some outer) (levels : Nat) :
    m.chainUpTo t (levels + 1) row = row :: m.chainUpTo t levels outer := by
  rw [chainUpTo, h]
  rfl

theorem readable_singleton {row : Nat} {ns : String} {names : List String} :
    m.Readable t [row] ns names ↔
      ∃ name, m.nameIn t row = .ok name ∧ m.namespaceIn t row = .ok ns ∧ names = [name] := by
  constructor
  · rintro ⟨hnames, outermost, houtermost, hns⟩
    obtain ⟨name, rest, hname, hrest, rfl⟩ := List.forall₂_cons_left_iff.mp hnames
    obtain rfl := List.forall₂_nil_left_iff.mp hrest
    obtain rfl : row = outermost := Option.some.inj houtermost
    exact ⟨name, hname, hns, rfl⟩
  · rintro ⟨name, hname, hns, rfl⟩
    exact ⟨.cons hname .nil, row, rfl, hns⟩

theorem readable_cons {row : Nat} {rows : List Nat} (h : rows ≠ []) {ns : String}
    {names : List String} : m.Readable t (row :: rows) ns names ↔
      ∃ name rest, m.nameIn t row = .ok name ∧ m.Readable t rows ns rest ∧
        names = name :: rest := by
  have hlast : (row :: rows).getLast? = rows.getLast? := by
    obtain ⟨next, further, rfl⟩ := List.exists_cons_of_ne_nil h
    exact List.getLast?_cons_cons
  constructor
  · rintro ⟨hnames, houtermost⟩
    obtain ⟨name, rest, hname, hrest, rfl⟩ := List.forall₂_cons_left_iff.mp hnames
    exact ⟨name, rest, hname, ⟨hrest, hlast ▸ houtermost⟩, rfl⟩
  · rintro ⟨name, rest, hname, ⟨hrest, houtermost⟩, rfl⟩
    exact ⟨.cons hname hrest, hlast ▸ houtermost⟩

theorem Readable.names_ne_nil {rows : List Nat} {ns : String} {names : List String}
    (h : m.Readable t rows ns names) (hrows : rows ≠ []) : names ≠ [] := by
  rintro rfl
  exact hrows (List.forall₂_nil_right_iff.mp h.names)

/-- What is read along a chain is read the same each time. -/
theorem Readable.unique {rows : List Nat} {ns ns' : String} {names names' : List String}
    (h : m.Readable t rows ns names) (h' : m.Readable t rows ns' names') :
    ns = ns' ∧ names = names' := by
  obtain ⟨hnames, row, hrow, hns⟩ := h
  obtain ⟨hnames', row', hrow', hns'⟩ := h'
  obtain rfl : row = row' := Option.some.inj (hrow.symm.trans hrow')
  exact ⟨Except.ok.inj (hns.symm.trans hns'),
    Except.ok.inj ((mapM_eq_ok_iff.mpr hnames).symm.trans (mapM_eq_ok_iff.mpr hnames'))⟩

end Metadata

/-! ### Names that are spelled -/

/-- The name of a type is **spelled** by the names of a chain, which starts with the type itself.
Only the outermost type has a namespace. -/
structure TypeName.Spells (n : TypeName) (ns : String) (names : List String) : Prop where
  segments : n.segments.map (·.name) = names.reverse
  rootNamespace : n.rootNamespace = ns
  nested : ∀ s ∈ n.nested, s.ns = ""

namespace TypeName

theorem spells_singleton {n : TypeName} {ns name : String} :
    n.Spells ns [name] ↔ topLevel ns name = n := by
  constructor
  · rintro ⟨hsegments, rfl, -⟩
    rcases n with ⟨⟨ns, name'⟩, nested⟩
    simp only [segments, List.map_cons, List.reverse_singleton, List.cons.injEq,
      List.map_eq_nil_iff] at hsegments
    obtain ⟨rfl, rfl⟩ := hsegments
    rfl
  · rintro rfl
    exact ⟨rfl, rfl, by simp [topLevel]⟩

/-- A name is spelled by a longer chain exactly if it is nested in one that the rest spells. -/
theorem spells_cons {n : TypeName} {ns name : String} {names : List String} (h : names ≠ []) :
    n.Spells ns (name :: names) ↔ ∃ declaring : TypeName, declaring.Spells ns names ∧
      declaring.nest name = n := by
  constructor
  · rintro ⟨hsegments, hroot, hnested⟩
    rcases n with ⟨outermost, nested⟩
    rcases List.eq_nil_or_concat nested with rfl | ⟨init, ⟨ns', name'⟩, rfl⟩
    · -- A name of one segment is spelled by one name.
      have hlength : 1 = names.length + 1 := by
        simpa [segments] using congrArg List.length hsegments
      have hpos : 0 < names.length := List.length_pos_iff.mpr h
      omega
    · obtain rfl : ns' = "" := hnested ⟨ns', name'⟩ (by simp)
      simp only [segments, List.map_cons, List.concat_eq_append, List.map_append, List.map_nil,
        List.reverse_cons, ← List.cons_append] at hsegments
      obtain ⟨hinit, hlast⟩ := List.append_inj' hsegments rfl
      obtain rfl : name' = name := List.singleton_inj.mp hlast
      refine ⟨⟨outermost, init⟩, ⟨hinit, hroot, fun s hs => hnested s ?_⟩, ?_⟩
      · exact List.concat_eq_append ▸ List.mem_append_left _ hs
      · simp [nest]
  · rintro ⟨declaring, ⟨hsegments, hroot, hnested⟩, rfl⟩
    refine ⟨?_, hroot, ?_⟩
    · rw [List.reverse_cons, ← hsegments]
      simp [segments, nest]
    · intro s hs
      rcases List.mem_append.mp hs with hs | hs
      · exact hnested s hs
      · rw [List.mem_singleton.mp hs]

/-- All names spell one. -/
theorem exists_spells (ns : String) {names : List String} (h : names ≠ []) :
    ∃ n : TypeName, n.Spells ns names := by
  induction names with
  | nil => exact absurd rfl h
  | cons name names ih =>
      by_cases hnames : names = []
      · subst hnames
        exact ⟨topLevel ns name, spells_singleton.mpr rfl⟩
      · obtain ⟨declaring, hdeclaring⟩ := ih hnames
        exact ⟨declaring.nest name, (spells_cons hnames).mpr ⟨declaring, hdeclaring, rfl⟩⟩

end TypeName

/-! ### Names are read along chains -/

namespace TypeIndex

/-- The scope of a reference is the token of the row around it. -/
theorem scope?_eq_map_outer? {m : Metadata} {row : Nat} {r : TypeRefRow}
    (h : m.tables.row? TypeRefRow row = some r) :
    scope? r = (m.outer? .references row).map TableId.typeRef.token := by
  rw [scope?, Metadata.outer?, h, Option.bind_some]
  split
  · rename_i hnested
    rw [CodedIndex.token, hnested.1, Option.map_some]
  · rfl

section

variable {m : Metadata} {x : TypeIndex} (hrows : m.tables.rows TypeDefRow = .ok x.definitions)
  (hbuild : build m x.definitions = .ok x)
include hrows hbuild

/-- **One level** reads the name in a row, and goes on to the row around it or ends with the
namespace. -/
theorem nameWithin_succ (t : TypeTable) {levels row : Nat} (hfits : row < 2 ^ 24) :
    x.nameWithin (levels + 1) (t.id.token row) = m.nameIn t row >>= fun name =>
      match m.outer? t row with
      | some outer => (x.nameWithin levels (t.id.token outer)).map (·.nest name)
      | none => (m.namespaceIn t row).map (TypeName.topLevel · name) := by
  obtain rfl := metadata_of_build hbuild
  obtain ⟨htable, hrow⟩ := t.id.denotes_token hfits
  cases t with
  | definitions =>
      have htable : (TableId.typeDef.token row).table = TableId.typeDef.number := htable
      have hrow : (TableId.typeDef.token row).row = row := hrow
      rw [TypeTable.id, nameWithin, if_pos htable, hrow, Metadata.nameIn, Metadata.namespaceIn,
        Metadata.entry?, Metadata.outer?, ← definition?_eq hrows]
      cases hd : x.definition? row with
      | none => rfl
      | some d =>
          simp only [Option.map_some, rid_of_definition? hrows hd, enclosing?_of_build hbuild,
            qualify]
          cases x.metadata.enclosing? row <;> rfl
  | references =>
      have htable : (TableId.typeRef.token row).table = TableId.typeRef.number := htable
      have hrow : (TableId.typeRef.token row).row = row := hrow
      have hdef : (TableId.typeRef.token row).table ≠ TableId.typeDef.number := by
        rw [htable]
        decide
      rw [TypeTable.id, nameWithin, if_neg hdef, if_pos htable, hrow, Metadata.nameIn,
        Metadata.namespaceIn, Metadata.entry?]
      cases hr : x.metadata.tables.row? TypeRefRow row with
      | none => rfl
      | some r =>
          simp only [Option.map_some, scope?_eq_map_outer? hr, qualify]
          cases x.metadata.outer? .references row <;> rfl

/-- **A chain that ends in time is read to the name that it spells.** -/
theorem nameWithin_eq_ok_iff_of_chain {t : TypeTable} {row : Nat} {rows : List Nat}
    (hchain : m.Chain t row rows) {levels : Nat} (hlevels : rows.length ≤ levels)
    (hfits : ∀ r ∈ m.chainUpTo t levels row, r < 2 ^ 24) {n : TypeName} :
    x.nameWithin levels (t.id.token row) = .ok n ↔
      ∃ ns names, m.Readable t rows ns names ∧ n.Spells ns names := by
  -- Along the chain: its first row takes one level, and leaves the rest of the budget to the others.
  induction hchain generalizing levels n with
  | @outermost row hnone =>
      obtain ⟨levels, rfl⟩ := Nat.exists_eq_add_one.mpr hlevels
      rw [Metadata.chainUpTo_of_outermost hnone, List.forall_mem_singleton] at hfits
      rw [nameWithin_succ hrows hbuild t hfits, hnone, seq_eq_ok_iff]
      constructor
      · rintro ⟨name, hname, h⟩
        obtain ⟨ns, hns, rfl⟩ := map_eq_ok_iff.mp h
        exact ⟨ns, [name], Metadata.readable_singleton.mpr ⟨name, hname, hns, rfl⟩,
          TypeName.spells_singleton.mpr rfl⟩
      · rintro ⟨ns, names, hread, hspells⟩
        obtain ⟨name, hname, hns, rfl⟩ := Metadata.readable_singleton.mp hread
        exact ⟨name, hname, map_eq_ok_iff.mpr ⟨ns, hns, TypeName.spells_singleton.mp hspells⟩⟩
  | @nested row outer rows hsome rest ih =>
      obtain ⟨levels, rfl⟩ := Nat.exists_eq_add_one.mpr (Nat.zero_lt_of_lt hlevels)
      have hshorter : rows.length ≤ levels := Nat.le_of_succ_le_succ hlevels
      rw [Metadata.chainUpTo_of_nested hsome, List.forall_mem_cons] at hfits
      rw [nameWithin_succ hrows hbuild t hfits.1, hsome, seq_eq_ok_iff]
      constructor
      · rintro ⟨name, hname, h⟩
        obtain ⟨declaring, hdeclaring, rfl⟩ := map_eq_ok_iff.mp h
        obtain ⟨ns, names, hread, hspells⟩ := (ih hshorter hfits.2).mp hdeclaring
        have hnames := hread.names_ne_nil rest.ne_nil
        exact ⟨ns, name :: names,
          (Metadata.readable_cons rest.ne_nil).mpr ⟨name, names, hname, hread, rfl⟩,
          (TypeName.spells_cons hnames).mpr ⟨declaring, hspells, rfl⟩⟩
      · rintro ⟨ns, names, hread, hspells⟩
        obtain ⟨name, names, hname, hrest, rfl⟩ := (Metadata.readable_cons rest.ne_nil).mp hread
        obtain ⟨declaring, hspelled, rfl⟩ :=
          (TypeName.spells_cons (hrest.names_ne_nil rest.ne_nil)).mp hspells
        have hdeclaring := (ih hshorter hfits.2).mpr ⟨ns, names, hrest, hspelled⟩
        exact ⟨name, hname, map_eq_ok_iff.mpr ⟨declaring, hdeclaring, rfl⟩⟩

/-- **A chain that does not end in time is never read to a name**: the first name on it that cannot
be read is reported, and otherwise the limit. -/
theorem nameWithin_of_long (t : TypeTable) {levels row : Nat}
    (hlong : ∀ rows, m.Chain t row rows → levels < rows.length)
    (hfits : ∀ r ∈ m.chainUpTo t levels row, r < 2 ^ 24) :
    x.nameWithin levels (t.id.token row) =
      (m.chainUpTo t levels row).mapM (m.nameIn t) >>= fun _ =>
        .error (.recursionLimit maxLevels) := by
  -- On the budget, as there may be no chain. It cannot end before the budget does.
  induction levels generalizing row with
  | zero => rfl
  | succ levels ih =>
      cases houter : m.outer? t row with
      | none =>
          have hlt : levels + 1 < 1 := hlong [row] (.outermost houter)
          omega
      | some outer =>
          have hlong' (rows : List Nat) (h : m.Chain t outer rows) : levels < rows.length :=
            Nat.lt_of_succ_lt_succ (hlong (row :: rows) (.nested houter h))
          rw [Metadata.chainUpTo_of_nested houter] at hfits ⊢
          rw [List.forall_mem_cons] at hfits
          rw [nameWithin_succ hrows hbuild t hfits.1, houter, List.mapM_cons]
          cases m.nameIn t row with
          | error e => rfl
          | ok name =>
              simp only [ok_bind, ih hlong' hfits.2]
              cases (m.chainUpTo t levels outer).mapM (m.nameIn t) <;> rfl

/-- **Names follow chains.** The name of a type is found exactly if its chain ends within the limit
and is readable, and then it is spelled by the names along the chain. A chain that is longer, or
that runs in a circle and so has no end, is read up to the limit at most. -/
theorem name_follows_chain (t : TypeTable) {row : Nat}
    (hfits : ∀ r ∈ m.chainUpTo t maxLevels row, r < 2 ^ 24) :
    ((∃ n, x.name (t.id.token row) = .ok n) ↔ ∃ rows ns names, m.Chain t row rows ∧
      rows.length ≤ maxLevels ∧ m.Readable t rows ns names) ∧
    (∀ n rows ns names, x.name (t.id.token row) = .ok n → m.Chain t row rows →
      m.Readable t rows ns names → n.Spells ns names) ∧
    ((∀ rows, m.Chain t row rows → maxLevels < rows.length) →
      x.name (t.id.token row) = (m.chainUpTo t maxLevels row).mapM (m.nameIn t) >>= fun _ =>
        .error (.recursionLimit maxLevels)) ∧
    ∀ row', Relation.ReflTransGen (m.LeadsTo t) row row' →
      Relation.TransGen (m.LeadsTo t) row' row' →
      ∀ rows, ¬ m.Chain t row rows := by
  have hended {rows : List Nat} (hchain : m.Chain t row rows) (hlength : rows.length ≤ maxLevels)
      (n : TypeName) : x.name (t.id.token row) = .ok n ↔
        ∃ ns names, m.Readable t rows ns names ∧ n.Spells ns names :=
    nameWithin_eq_ok_iff_of_chain hrows hbuild hchain hlength hfits
  have hlong (h : ∀ rows, m.Chain t row rows → maxLevels < rows.length) :
      x.name (t.id.token row) = (m.chainUpTo t maxLevels row).mapM (m.nameIn t) >>= fun _ =>
        .error (.recursionLimit maxLevels) :=
    nameWithin_of_long hrows hbuild t h hfits
  have hin_time {n : TypeName} (h : x.name (t.id.token row) = .ok n) :
      ∃ rows, m.Chain t row rows ∧ rows.length ≤ maxLevels := by
    by_contra hnone
    have hfails := hlong fun rows hchain =>
      Nat.lt_of_not_le fun hlength => hnone ⟨rows, hchain, hlength⟩
    rw [h] at hfails
    obtain ⟨_, -, hlimit⟩ := seq_eq_ok_iff.mp hfails.symm
    cases hlimit
  refine ⟨⟨?_, ?_⟩, ?_, hlong, fun _ hreached hcircle _ =>
    Metadata.not_chain_of_circle hreached hcircle⟩
  · rintro ⟨n, h⟩
    obtain ⟨rows, hchain, hlength⟩ := hin_time h
    obtain ⟨ns, names, hread, -⟩ := (hended hchain hlength n).mp h
    exact ⟨rows, ns, names, hchain, hlength, hread⟩
  · rintro ⟨rows, ns, names, hchain, hlength, hread⟩
    obtain ⟨n, hspells⟩ := TypeName.exists_spells ns (hread.names_ne_nil hchain.ne_nil)
    exact ⟨n, (hended hchain hlength n).mpr ⟨ns, names, hread, hspells⟩⟩
  · intro n rows ns names h hchain hread
    obtain ⟨rows', hchain', hlength⟩ := hin_time h
    obtain rfl := hchain'.unique hchain
    obtain ⟨ns', names', hread', hspells⟩ := (hended hchain hlength n).mp h
    obtain ⟨rfl, rfl⟩ := hread'.unique hread
    exact hspells

end

end TypeIndex

/-! ### Sample -/

/-- Four types. The second one is nested in the first, and the last two in each other. -/
def chainedTypes : List TypeDefRow :=
  [⟨1, 0, 1, 13, ⟨.typeDef, 0⟩, 1, 1⟩, ⟨2, 0, 7, 0, ⟨.typeDef, 0⟩, 1, 1⟩,
    ⟨3, 0, 7, 0, ⟨.typeDef, 0⟩, 1, 1⟩, ⟨4, 0, 7, 0, ⟨.typeDef, 0⟩, 1, 1⟩]

/-- The classes around the types. Two of them are recorded for the second type. -/
def chainedNestings : List NestedClassRow :=
  [⟨1, 2, 3⟩, ⟨2, 2, 1⟩, ⟨3, 3, 4⟩, ⟨4, 4, 3⟩]

/-- Four references to types, which are nested like the definitions. -/
def chainedReferences : List TypeRefRow :=
  [⟨1, ⟨.assemblyRef, 1⟩, 1, 13⟩, ⟨2, ⟨.typeRef, 1⟩, 7, 0⟩, ⟨3, ⟨.typeRef, 4⟩, 7, 0⟩,
    ⟨4, ⟨.typeRef, 3⟩, 7, 0⟩]

/-- The layout of these tables. -/
def chainedLayout : Layout where
  rowCount
    | .typeRef => 4
    | .typeDef => 4
    | .nestedClass => 4
    | _ => 0
  wideStrings := false
  wideGuids := false
  wideBlobs := false

/-- Metadata with these tables. -/
def chained : Metadata where
  tables :=
    { majorVersion := 2
      minorVersion := 0
      valid := 0x20000000006
      sorted := 0
      layout := chainedLayout
      tables :=
        [(.typeRef, ⟨(TableRow.bytesOf chainedLayout chainedReferences).toArray⟩),
          (.typeDef, ⟨(TableRow.bytesOf chainedLayout chainedTypes).toArray⟩),
          (.nestedClass, ⟨(TableRow.bytesOf chainedLayout chainedNestings).toArray⟩)] }
  strings := ⟨"\x00Outer\x00Inner\x00Space\x00".toUTF8⟩
  blobs := none

/-- The types of the sample. -/
def chainedIndex : TypeIndex where
  metadata := chained
  definitions := chainedTypes.toArray
  enclosing := .ofList [(2, 3), (2, 1), (3, 4), (4, 3)]

theorem rows_types_chained : chained.tables.rows TypeDefRow = .ok chainedIndex.definitions :=
  Table.rows_of_bytes chainedLayout (by decide) rfl

theorem rows_nestings_chained :
    chained.tables.rows NestedClassRow = .ok chainedNestings.toArray :=
  Table.rows_of_bytes chainedLayout (by decide) rfl

theorem rows_references_chained :
    chained.tables.rows TypeRefRow = .ok chainedReferences.toArray :=
  Table.rows_of_bytes chainedLayout (by decide) rfl

theorem build_chained :
    TypeIndex.build chained chainedIndex.definitions = .ok chainedIndex := by
  rw [TypeIndex.build, rows_nestings_chained]
  rfl

/-- The definitions of the sample and the references are nested alike. -/
theorem outer?_chained (t : TypeTable) : chained.outer? t 1 = none ∧
    chained.outer? t 2 = some 1 ∧ chained.outer? t 3 = some 4 ∧ chained.outer? t 4 = some 3 := by
  cases t with
  | definitions =>
      simp only [Metadata.outer?, Metadata.enclosing?, rows_nestings_chained]
      decide
  | references =>
      simp only [Metadata.outer?, TableStream.row?_of_rows rows_references_chained]
      decide

/-- The second type is spelled by its own name and the one of the first. -/
theorem readable_chained :
    chained.Readable .definitions [2, 1] "Space" ["Inner", "Outer"] where
  names := .cons (by decide +kernel) (.cons (by decide +kernel) .nil)
  namespace_outermost := ⟨1, rfl, by decide +kernel⟩

/-- The name of a nested definition is found, along the class recorded last. The search for the name
of a reference that runs in a circle ends at the limit. -/
theorem name_follows_chain_chained :
    (∃ n, chainedIndex.name (TableId.typeDef.token 2) = .ok n ∧
      n.Spells "Space" ["Inner", "Outer"]) ∧
    chainedIndex.name (TableId.typeRef.token 3) = .error (.recursionLimit maxLevels) := by
  have hchain : chained.Chain .definitions 2 [2, 1] :=
    .nested (outer?_chained .definitions).2.1 (.outermost (outer?_chained .definitions).1)
  have hcircle : Relation.TransGen (chained.LeadsTo .references) 3 3 :=
    .tail (.single (outer?_chained .references).2.2.1) (outer?_chained .references).2.2.2
  have hnested : ∀ r ∈ chained.chainUpTo .definitions maxLevels 2, r < 2 ^ 24 := by
    decide +kernel
  have hcircled : ∀ r ∈ chained.chainUpTo .references maxLevels 3, r < 2 ^ 24 := by
    decide +kernel
  obtain ⟨hfound, hspelled, -, -⟩ :=
    TypeIndex.name_follows_chain rows_types_chained build_chained .definitions hnested
  obtain ⟨-, -, hlimit, hendless⟩ :=
    TypeIndex.name_follows_chain rows_types_chained build_chained .references hcircled
  constructor
  · obtain ⟨n, hn⟩ := hfound.mpr ⟨_, _, _, hchain, by decide, readable_chained⟩
    exact ⟨n, hn, hspelled n _ _ _ hn hchain readable_chained⟩
  · refine (hlimit fun rows hrows => absurd hrows (hendless 3 .refl hcircle rows)).trans ?_
    decide +kernel

end AliasStubs
