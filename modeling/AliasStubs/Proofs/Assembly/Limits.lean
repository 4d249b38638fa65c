import AliasStubs.Proofs.Assembly.Chains
import AliasStubs.Proofs.Assembly.Resolution
import AliasStubs.Proofs.Signature.Trees
import Mathlib

/-!
# The limits of reading and resolving

A signature is read within one limit of levels, and resolved within another. The limits agree: what
is read nests at most as deep as can be resolved, with the one level left that a name takes. So if
every token in a signature that is read names a type that is not nested, the signature resolves, and
to a type of the same shape.

Signatures are resolved in the form of plain trees, too. A plain tree may fail to be one of a
signature in two more ways, and for these the resolver has two failures of its own. On trees that
were read, neither is ever met.

## Main definitions

* `TypesRead` : the types in the signatures that are read from some bytes.
* `Metadata.NamesTopLevel` : a token names a type that is not nested.
* `Mirrors` : a type has the shape of a signature, and the names behind its tokens.
* `TypeIndex.resolveTreeWithin` : the type of a plain tree.

## Main results

* `TypesRead.depth_le` : what is read keeps the limit of the reader.
* `TypeIndex.exists_mirrored` : **types within the limit are resolved**, to their mirror image.
* `TypeIndex.resolveTreeWithin_tree` : **the tree of a signature resolves like the signature**.
* `TypeIndex.read_types_resolve` : what is read is resolved.
-/

namespace AliasStubs

/-! ### What is read -/

/-- The types in the signatures that a fresh reader accepts: one of a type, or one of a method with
its return value, its parameters and the further arguments. -/
def TypesRead (bytes : ByteArray) (s : TypeSig) : Prop :=
  Signature.readType bytes = .ok s ∨
    ∃ signature, Signature.readMethod bytes = .ok signature ∧ s ∈ signature.types

/-- The plain trees in the signatures that a fresh reader accepts. -/
def TreesRead (bytes : ByteArray) (tree : SignatureTree) : Prop :=
  SignatureTree.readType bytes = .ok tree ∨
    ∃ signature, SignatureTree.readMethod bytes = .ok signature ∧ tree ∈ signature.types

/-- The plain trees that are read are those of the types that are read. -/
theorem treesRead_iff {bytes : ByteArray} {tree : SignatureTree} :
    TreesRead bytes tree ↔ ∃ s, TypesRead bytes s ∧ s.tree = tree := by
  rw [TreesRead, SignatureTree.readType_eq, SignatureTree.readMethod_eq]
  constructor
  · rintro (h | ⟨signature, h, hmem⟩)
    · obtain ⟨s, hs, rfl⟩ := map_eq_ok_iff.mp h
      exact ⟨s, .inl hs, rfl⟩
    · obtain ⟨signature, hsignature, rfl⟩ := map_eq_ok_iff.mp h
      rw [MethodSig.types_map] at hmem
      obtain ⟨s, hs, rfl⟩ := List.mem_map.mp hmem
      exact ⟨s, .inr ⟨signature, hsignature, hs⟩, rfl⟩
  · rintro ⟨s, h | ⟨signature, hsignature, hs⟩, rfl⟩
    · exact .inl (map_eq_ok_iff.mpr ⟨s, h, rfl⟩)
    · refine .inr ⟨_, map_eq_ok_iff.mpr ⟨signature, hsignature, rfl⟩, ?_⟩
      rw [MethodSig.types_map]
      exact List.mem_map_of_mem hs

/-- What is read keeps the limit of the reader. -/
theorem TypesRead.depth_le {bytes : ByteArray} {s : TypeSig} (h : TypesRead bytes s) :
    s.depth ≤ Signature.budget := by
  rcases h with h | ⟨signature, h, hs⟩
  · obtain ⟨rest, hread⟩ := Signature.Session.exists_of_read_start h
    obtain ⟨_, -, hwritten⟩ := (Signature.type_recognises _).sound hread
    exact hwritten.2
  · obtain ⟨rest, hread⟩ := Signature.Session.exists_of_read_start h
    obtain ⟨_, -, -, hdepth⟩ := (Signature.method_type_recognises _).sound hread
    exact hdepth s hs

/-! ### Names without chains -/

namespace Metadata

/-- A token **names a type that is not nested**: it stands for a definition or a reference whose
name and namespace can be read. -/
inductive NamesTopLevel (m : Metadata) (t : Token) : TypeName → Prop
  | definition {d : TypeDefRow} {ns name : String} (htable : t.table = TableId.typeDef.number)
      (hrow : m.tables.row? TypeDefRow t.row = some d) (htop : m.enclosing? t.row = none)
      (hname : m.string d.typeName = .ok name) (hns : m.string d.typeNamespace = .ok ns) :
      NamesTopLevel m t (.topLevel ns name)
  | reference {r : TypeRefRow} {ns name : String} (htable : t.table = TableId.typeRef.number)
      (hrow : m.tables.row? TypeRefRow t.row = some r)
      (htop : r.resolutionScope.table = .typeRef → r.resolutionScope.row = 0)
      (hname : m.string r.typeName = .ok name) (hns : m.string r.typeNamespace = .ok ns) :
      NamesTopLevel m t (.topLevel ns name)

/-- Such a name is told within one level. -/
theorem NamesTopLevel.named {m : Metadata} {t : Token} {n : TypeName} (h : m.NamesTopLevel t n)
    (levels : Nat) : m.Named (levels + 1) t n := by
  cases h with
  | definition htable hrow htop hname hns => exact .definition htable hrow htop hname hns
  | reference htable hrow htop hname hns => exact .reference htable hrow htop hname hns

end Metadata

/-! ### Shapes -/

/-- A type **mirrors** a signature: it has the same shape, names where the signature has tokens, and
the names of generic parameters where it has their positions. A pointer to a method is mirrored by an
integer. -/
inductive Mirrors (m : Metadata) (scope : GenericScope) : TypeSig → TypeDescriptor → Prop
  | simple (t : SimpleType) : Mirrors m scope (.simple t) (.primitive t.primitive)
  | method (signature : MethodSig TypeSig) :
      Mirrors m scope (.method signature) (.primitive .intPtr)
  | typeParam (i : Nat) : Mirrors m scope (.typeParam i) (.parameter (scope.typeParam i))
  | methodParam (i : Nat) : Mirrors m scope (.methodParam i) (.parameter (scope.methodParam i))
  | nominal {kind : NominalKind} {t : Token} {n : TypeName} (h : m.NamesTopLevel t n) :
      Mirrors m scope (.nominal kind t) (.ofName n)
  | pointer {target : TypeSig} {d : TypeDescriptor} (h : Mirrors m scope target d) :
      Mirrors m scope (.pointer target) (.pointer d)
  | byRef {target : TypeSig} {d : TypeDescriptor} (h : Mirrors m scope target d) :
      Mirrors m scope (.byRef target) (.byRef d .ref)
  | vector {element : TypeSig} {d : TypeDescriptor} (h : Mirrors m scope element d) :
      Mirrors m scope (.vector element) (.array d 1)
  | array {element : TypeSig} {d : TypeDescriptor} {rank : Nat} (h : Mirrors m scope element d) :
      Mirrors m scope (.array element rank) (.array d rank)
  | generic {kind : NominalKind} {definition : Token} {n : TypeName} {arguments : List TypeSig}
      {ds : List TypeDescriptor} (hname : m.NamesTopLevel definition n)
      (hlength : arguments.length = ds.length)
      (h : ∀ a d, (a, d) ∈ arguments.zip ds → Mirrors m scope a d) :
      Mirrors m scope (.generic kind definition arguments) (.generic n ds)

namespace TypeIndex

variable {m : Metadata} {x : TypeIndex} {scope : GenericScope}

section Resolving

variable (hrows : m.tables.rows TypeDefRow = .ok x.definitions)
  (hbuild : build m x.definitions = .ok x)
include hrows hbuild

theorem nameWithin_of_namesTopLevel {t : Token} {n : TypeName} (h : m.NamesTopLevel t n)
    (levels : Nat) : x.nameWithin (levels + 1) t = .ok n :=
  (nameWithin_eq_ok_iff hrows hbuild).mpr (h.named levels)

/-- **Types within the limit are resolved**, to their mirror image. They take one level more than
they nest, for their names. -/
theorem exists_mirrored {levels : Nat} {s : TypeSig} (hdepth : s.depth ≤ levels)
    (htokens : ∀ t, s.Mentions t → ∃ n, m.NamesTopLevel t n) :
    ∃ d, x.Resolves scope (levels + 1) s d ∧ Mirrors m scope s d := by
  -- On the levels, of which every construction takes one from the reader and from the resolver.
  induction levels generalizing s with
  | zero => exact absurd hdepth (Nat.not_le_of_lt s.one_le_depth)
  | succ levels ih =>
      have hparts := TypeSig.depth_le_succ_iff.mp hdepth
      cases s with
      | simple t => exact ⟨_, .simple t, .simple t⟩
      | method signature => exact ⟨_, .method signature, .method signature⟩
      | typeParam i => exact ⟨_, .typeParam i, .typeParam i⟩
      | methodParam i => exact ⟨_, .methodParam i, .methodParam i⟩
      | pointer target =>
          obtain ⟨d, h, hmirrors⟩ := ih (hparts target (.head _)) fun t ht => htokens t (.pointer ht)
          exact ⟨_, .pointer h, .pointer hmirrors⟩
      | byRef target =>
          obtain ⟨d, h, hmirrors⟩ := ih (hparts target (.head _)) fun t ht => htokens t (.byRef ht)
          exact ⟨_, .byRef h, .byRef hmirrors⟩
      | vector element =>
          obtain ⟨d, h, hmirrors⟩ := ih (hparts element (.head _)) fun t ht => htokens t (.vector ht)
          exact ⟨_, .vector h, .vector hmirrors⟩
      | array element rank =>
          obtain ⟨d, h, hmirrors⟩ := ih (hparts element (.head _)) fun t ht => htokens t (.array ht)
          exact ⟨_, .array h, .array hmirrors⟩
      | nominal kind t =>
          obtain ⟨n, hn⟩ := htokens t (.nominal kind t)
          have hname := nameWithin_of_namesTopLevel hrows hbuild hn levels
          have hnot : ¬ isSpecification t := fun ht => x.not_named_of_isSpecification ht hname
          exact ⟨_, .named hnot hname, .nominal hn⟩
      | generic kind definition arguments =>
          obtain ⟨n, hn⟩ := htokens definition (.definition kind definition arguments)
          have hname := nameWithin_of_namesTopLevel hrows hbuild hn levels
          obtain ⟨ds, hds⟩ := exists_forall₂ fun a ha =>
            ih (hparts a (.tail _ ha)) fun t ht => htokens t (.argument ha ht)
          obtain ⟨hlength, hzip⟩ := List.forall₂_iff_zip.mp hds
          exact ⟨_, .generic hname hlength fun _ _ hmem => (hzip hmem).1,
            .generic hn hlength fun _ _ hmem => (hzip hmem).2⟩

end Resolving

end TypeIndex

/-! ### Resolving plain trees -/

/-- Why the type of a plain tree is not found. -/
inductive TreeFailure
  /-- The tree could be one of a signature. -/
  | failure (f : Failure)
  /-- It could not, for the reason in these words. -/
  | defect (message : String)

namespace TypeIndex

/-- The plain tree of the type specification that a token names. -/
def treeSpecification (x : TypeIndex) (t : Token) : Except Failure SignatureTree :=
  match x.metadata.tables.row? TypeSpecRow t.row with
  | none => .error (.malformed (.badTypeSpec t))
  | some r => do SignatureTree.readType (← x.metadata.blob r.signature)

/-- The type of a plain tree. Of what a generic instance is over it has to be found out whether it is
a defined type, and of every node whether its kind is known. -/
def resolveTreeWithin (x : TypeIndex) (scope : GenericScope) :
    (levels : Nat) → SignatureTree → Except TreeFailure TypeDescriptor
  | 0, _ => .error (.failure (.recursionLimit maxLevels))
  | levels + 1, tree =>
    match tree with
    | .unknown => .error (.defect "Unknown type in signature")
    | .simple t => .ok (.primitive t.primitive)
    | .method _ => .ok (.primitive .intPtr)
    | .typeParam i => .ok (.parameter (scope.typeParam i))
    | .methodParam i => .ok (.parameter (scope.methodParam i))
    | .pointer target => (resolveTreeWithin x scope levels target).map .pointer
    | .byRef target => (resolveTreeWithin x scope levels target).map (.byRef · .ref)
    | .vector element => (resolveTreeWithin x scope levels element).map (.array · 1)
    | .array element rank => (resolveTreeWithin x scope levels element).map (.array · rank)
    | .nominal _ t =>
      if isSpecification t then do
        let specified ← (x.treeSpecification t).mapError .failure
        match levels with
        | 0 => .error (.failure (.recursionLimit maxLevels))
        | levels + 1 => resolveTreeWithin x scope levels specified
      else
        ((x.nameWithin levels t).map .ofName).mapError .failure
    | .generic base arguments => do
      let name ← match base with
        | .nominal _ t => (x.nameWithin levels t).mapError .failure
        | _ => .error (.defect "Generic instance over a non-type")
      let arguments ← arguments.mapM (resolveTreeWithin x scope levels)
      return .generic name arguments

theorem treeSpecification_eq (x : TypeIndex) (t : Token) :
    x.treeSpecification t = (x.specification t).map TypeSig.tree := by
  rw [treeSpecification, specification]
  cases x.metadata.tables.row? TypeSpecRow t.row with
  | none => rfl
  | some r =>
      simp only [SignatureTree.readType_eq]
      cases x.metadata.blob r.signature <;> rfl

/-- **The tree of a signature resolves like the signature**, so that it never meets a failure that
signatures do not have. -/
theorem resolveTreeWithin_tree (x : TypeIndex) (scope : GenericScope) (levels : Nat) (s : TypeSig) :
    x.resolveTreeWithin scope levels s.tree =
      (x.resolveWithin scope levels s).mapError .failure := by
  induction levels using Nat.strongRecOn generalizing s with
  | _ levels ih =>
      cases levels with
      | zero => rfl
      | succ levels =>
          have hpart := ih levels (Nat.lt_succ_self levels)
          cases s with
          | simple | method | typeParam | methodParam => rfl
          | pointer target | byRef target | vector element | array element rank =>
              rw [TypeSig.tree, resolveTreeWithin, resolveWithin, hpart, mapError_map]
          | nominal kind t =>
              rw [TypeSig.tree, resolveTreeWithin, resolveWithin]
              split
              · rw [treeSpecification_eq, mapError_bind]
                cases x.specification t with
                | error e => rfl
                | ok specified =>
                    cases levels with
                    | zero => rfl
                    | succ levels => exact ih levels (by omega) specified
              · rfl
          | generic kind definition arguments =>
              rw [TypeSig.tree, TypeSig.trees_eq, resolveTreeWithin, resolveWithin, mapError_bind]
              have hmapM : arguments.mapM (x.resolveTreeWithin scope levels ∘ TypeSig.tree) =
                  (arguments.mapM (x.resolveWithin scope levels)).mapError .failure :=
                mapError_mapM _ fun a _ => hpart a
              refine bind_congr fun n => ?_
              rw [mapError_bind, List.mapM_map, hmapM]
              rfl

/-! ### Main result -/

/-- **What is read is resolved.** The plain trees that a fresh reader accepts are those of the types
that it accepts, and they resolve alike, never with a failure of plain trees. If every token in a
type names a type that is not nested, the type is resolved within the limit, to its mirror image. -/
theorem read_types_resolve (hrows : m.tables.rows TypeDefRow = .ok x.definitions)
    (hbuild : build m x.definitions = .ok x) (scope : GenericScope) (bytes : ByteArray) :
    (∀ tree, TreesRead bytes tree ↔ ∃ s, TypesRead bytes s ∧ s.tree = tree) ∧
    ∀ s, TypesRead bytes s →
      x.resolveTreeWithin scope maxLevels s.tree = (x.resolve scope s).mapError .failure ∧
      ((∀ t, s.Mentions t → ∃ n, m.NamesTopLevel t n) →
        ∃ d, x.resolve scope s = .ok d ∧ Mirrors m scope s d) := by
  refine ⟨fun tree => treesRead_iff, fun s hread => ⟨?_, fun htokens => ?_⟩⟩
  · exact x.resolveTreeWithin_tree scope maxLevels s
  · obtain ⟨d, hresolves, hmirrors⟩ := exists_mirrored hrows hbuild hread.depth_le htokens
    exact ⟨d, resolveWithin_eq_ok_iff.mpr hresolves, hmirrors⟩

end TypeIndex

/-! ### Sample -/

/-- Pointers to pointers, `count` deep, around a type. -/
def pointers : (count : Nat) → TypeSig → TypeSig
  | 0, target => target
  | count + 1, target => .pointer (pointers count target)

/-- Pointers mention what is mentioned where they point. -/
theorem mentions_pointers {count : Nat} {s : TypeSig} {t : Token}
    (h : (pointers count s).Mentions t) : s.Mentions t := by
  induction count with
  | zero => exact h
  | succ count ih =>
      cases h with
      | pointer h => exact ih h

/-- An instance of the first of the chained types, over a number. -/
def outerOfNumber : TypeSig :=
  .generic .reference (TableId.typeDef.token 1) [.simple .i4]

/-- Pointers to it, as many as the reader accepts. -/
def pointersData : ByteArray :=
  ⟨(List.replicate 47 (0x0F : UInt8) ++ [0x15, 0x12, 0x04, 0x01, 0x08]).toArray⟩

set_option maxRecDepth 10000 in
theorem typesRead_pointersData : TypesRead pointersData (pointers 47 outerOfNumber) := by
  refine .inl ?_
  cbv

theorem namesTopLevel_chained :
    chained.NamesTopLevel (TableId.typeDef.token 1) (.topLevel "Space" "Outer") := by
  obtain ⟨htable, hrow⟩ := TableId.typeDef.denotes_token (show 1 < 2 ^ 24 by decide)
  refine .definition (d := ⟨1, 0, 1, 13, ⟨.typeDef, 0⟩, 1, 1⟩) htable ?_ ?_ (by decide +kernel)
    (by decide +kernel)
  · rw [hrow, TableStream.row?_of_rows rows_types_chained]
    rfl
  · rw [hrow]
    exact (outer?_chained .definitions).1

/-- Pointers at the limit of the reader are resolved, at the limit of the resolver. -/
theorem TypeIndex.read_types_resolve_pointers :
    (pointers 47 outerOfNumber).depth = Signature.budget ∧
    TypesRead pointersData (pointers 47 outerOfNumber) ∧
    ∃ d, chainedIndex.resolve ⟨#[], #[]⟩ (pointers 47 outerOfNumber) = .ok d ∧
      Mirrors chained ⟨#[], #[]⟩ (pointers 47 outerOfNumber) d := by
  have htokens (t : Token) (ht : (pointers 47 outerOfNumber).Mentions t) :
      ∃ n, chained.NamesTopLevel t n := by
    cases mentions_pointers ht with
    | definition => exact ⟨_, namesTopLevel_chained⟩
    | argument ha ht =>
        obtain rfl := List.mem_singleton.mp ha
        cases ht
  obtain ⟨-, hresolve⟩ :=
    read_types_resolve rows_types_chained build_chained ⟨#[], #[]⟩ pointersData
  exact ⟨by decide, typesRead_pointersData,
    (hresolve _ typesRead_pointersData).2 htokens⟩

end AliasStubs
