import AliasStubs.Assembly.Resolution
import AliasStubs.Proofs.Sequences

/-!
# What signatures resolve to

A signature is resolved construction by construction, and where a token names a type specification,
through the signature recorded there. The relation `TypeIndex.Resolves` says so without the order in
which this is done and without its failures, and within a budget of levels it holds exactly if the
type is found. A type that is found within a budget is found within every larger one.

## Main definitions

* `TypeSig.Mentions` : a token occurs in a signature.
* `TypeIndex.Resolves` : a signature has a type, told within a budget of levels.

## Main results

* `TypeIndex.resolveWithin_eq_ok_iff` : **a type is found exactly if the signature has it**.
* `TypeIndex.Resolves.mono` : **a larger budget finds the same type**.
-/

namespace AliasStubs

/-- A token **occurs** in a signature. The signatures of pointers to methods are left out, as they
are not resolved. -/
inductive TypeSig.Mentions : TypeSig → Token → Prop
  | nominal (kind : NominalKind) (t : Token) : Mentions (.nominal kind t) t
  | definition (kind : NominalKind) (t : Token) (arguments : List TypeSig) :
      Mentions (.generic kind t arguments) t
  | argument {kind : NominalKind} {definition t : Token} {arguments : List TypeSig} {a : TypeSig}
      (ha : a ∈ arguments) (h : Mentions a t) : Mentions (.generic kind definition arguments) t
  | pointer {target : TypeSig} {t : Token} (h : Mentions target t) : Mentions (.pointer target) t
  | byRef {target : TypeSig} {t : Token} (h : Mentions target t) : Mentions (.byRef target) t
  | vector {element : TypeSig} {t : Token} (h : Mentions element t) : Mentions (.vector element) t
  | array {element : TypeSig} {rank : Nat} {t : Token} (h : Mentions element t) :
      Mentions (.array element rank) t

namespace TypeIndex

/-! ### Names -/

/-- A name that is found with one level is found with one more. -/
theorem nameWithin_succ_of_ok (x : TypeIndex) {levels : Nat} {t : Token} {n : TypeName}
    (h : x.nameWithin levels t = .ok n) : x.nameWithin (levels + 1) t = .ok n := by
  -- On the budget, since a declaring type is looked up with one level less.
  induction levels generalizing t n with
  | zero => cases h
  | succ levels ih =>
      have hqualify {declaring? : Option Token} {ns : Nat} {name : String}
          (h : x.qualify (declaring?.map (x.nameWithin levels)) ns name = .ok n) :
          x.qualify (declaring?.map (x.nameWithin (levels + 1))) ns name = .ok n := by
        cases declaring? with
        | none => exact h
        | some outer =>
            obtain ⟨declaring, hdeclaring, rfl⟩ := map_eq_ok_iff.mp h
            exact map_eq_ok_iff.mpr ⟨declaring, ih hdeclaring, rfl⟩
      rw [nameWithin] at h ⊢
      split at h
      · rename_i hdef
        rw [if_pos hdef]
        cases hd : x.definition? t.row with
        | none =>
            rw [hd] at h
            cases h
        | some d =>
            rw [hd] at h
            obtain ⟨name, hname, h⟩ := seq_eq_ok_iff.mp h
            refine seq_eq_ok_iff.mpr ⟨name, hname, ?_⟩
            have hmap (levels : Nat) :
                ((x.enclosing? d.rid).map fun outer =>
                  x.nameWithin levels (TableId.typeDef.token outer)) =
                  ((x.enclosing? d.rid).map TableId.typeDef.token).map (x.nameWithin levels) :=
              (Option.map_map ..).symm
            rw [hmap] at h ⊢
            exact hqualify h
      · rename_i hdef
        rw [if_neg hdef]
        split at h
        · rename_i href
          rw [if_pos href]
          cases hr : x.metadata.tables.row? TypeRefRow t.row with
          | none =>
              rw [hr] at h
              cases h
          | some r =>
              rw [hr] at h
              obtain ⟨name, hname, h⟩ := seq_eq_ok_iff.mp h
              exact seq_eq_ok_iff.mpr ⟨name, hname, hqualify h⟩
        · cases h

/-- A type specification has no name. -/
theorem not_named_of_isSpecification (x : TypeIndex) {levels : Nat} {t : Token} {n : TypeName}
    (ht : isSpecification t) : x.nameWithin levels t ≠ .ok n := by
  have htable : t.table = TableId.typeSpec.number := of_decide_eq_true ht
  cases levels with
  | zero => exact nofun
  | succ levels =>
      rw [nameWithin, if_neg (htable ▸ by decide), if_neg (htable ▸ by decide)]
      exact nofun

/-! ### Types -/

variable (x : TypeIndex) (scope : GenericScope)

/-- A signature **has a type** that can be told within a budget of levels. Every construction takes
one level, and a type specification one more than the token that names it. -/
inductive Resolves : (levels : Nat) → TypeSig → TypeDescriptor → Prop
  | simple {levels : Nat} (s : SimpleType) :
      Resolves (levels + 1) (.simple s) (.primitive s.primitive)
  | method {levels : Nat} (signature : MethodSig TypeSig) :
      Resolves (levels + 1) (.method signature) (.primitive .intPtr)
  | typeParam {levels : Nat} (i : Nat) :
      Resolves (levels + 1) (.typeParam i) (.parameter (scope.typeParam i))
  | methodParam {levels : Nat} (i : Nat) :
      Resolves (levels + 1) (.methodParam i) (.parameter (scope.methodParam i))
  | pointer {levels : Nat} {target : TypeSig} {d : TypeDescriptor}
      (h : Resolves levels target d) : Resolves (levels + 1) (.pointer target) (.pointer d)
  | byRef {levels : Nat} {target : TypeSig} {d : TypeDescriptor}
      (h : Resolves levels target d) : Resolves (levels + 1) (.byRef target) (.byRef d .ref)
  | vector {levels : Nat} {element : TypeSig} {d : TypeDescriptor}
      (h : Resolves levels element d) : Resolves (levels + 1) (.vector element) (.array d 1)
  | array {levels rank : Nat} {element : TypeSig} {d : TypeDescriptor}
      (h : Resolves levels element d) : Resolves (levels + 1) (.array element rank) (.array d rank)
  /-- A token that stands for the signature of a type specification. -/
  | specification {levels : Nat} {kind : NominalKind} {t : Token} {specified : TypeSig}
      {d : TypeDescriptor} (ht : isSpecification t) (hspecified : x.specification t = .ok specified)
      (h : Resolves levels specified d) : Resolves (levels + 2) (.nominal kind t) d
  /-- A token that stands for a name. -/
  | named {levels : Nat} {kind : NominalKind} {t : Token} {n : TypeName}
      (ht : ¬ isSpecification t) (hname : x.nameWithin levels t = .ok n) :
      Resolves (levels + 1) (.nominal kind t) (.ofName n)
  | generic {levels : Nat} {kind : NominalKind} {definition : Token} {arguments : List TypeSig}
      {n : TypeName} {ds : List TypeDescriptor} (hname : x.nameWithin levels definition = .ok n)
      (hlength : arguments.length = ds.length)
      (h : ∀ a d, (a, d) ∈ arguments.zip ds → Resolves levels a d) :
      Resolves (levels + 1) (.generic kind definition arguments) (.generic n ds)

variable {x scope}

/-- A token resolves to what it names. -/
theorem resolveWithin_nominal_eq_ok_iff {levels : Nat} {kind : NominalKind} {t : Token}
    {d : TypeDescriptor}
    (ih : ∀ levels' < levels + 1, ∀ {s d}, x.resolveWithin scope levels' s = .ok d ↔
      x.Resolves scope levels' s d) :
    x.resolveWithin scope (levels + 1) (.nominal kind t) = .ok d ↔
      x.Resolves scope (levels + 1) (.nominal kind t) d := by
  rw [resolveWithin]
  by_cases ht : isSpecification t
  · rw [if_pos ht, seq_eq_ok_iff]
    constructor
    · rintro ⟨specified, hspecified, h⟩
      cases levels with
      | zero => cases h
      | succ levels => exact .specification ht hspecified ((ih levels (by omega)).mp h)
    · intro h
      cases h with
      | specification _ hspecified h => exact ⟨_, hspecified, (ih _ (by omega)).mpr h⟩
      | named ht' => exact absurd ht ht'
  · rw [if_neg ht, map_eq_ok_iff]
    constructor
    · rintro ⟨n, hname, rfl⟩
      exact .named ht hname
    · intro h
      cases h with
      | specification ht' => exact absurd ht' ht
      | named _ hname => exact ⟨_, hname, rfl⟩

/-- **A type is found exactly if the signature has it**, within any budget of levels. -/
theorem resolveWithin_eq_ok_iff {levels : Nat} {s : TypeSig} {d : TypeDescriptor} :
    x.resolveWithin scope levels s = .ok d ↔ x.Resolves scope levels s d := by
  -- On the budget, of which a type specification takes two levels at once.
  induction levels using Nat.strongRecOn generalizing s d with
  | _ levels ih =>
      cases levels with
      | zero => exact iff_of_false nofun nofun
      | succ levels =>
          have ih' {s d} := @ih levels (Nat.lt_succ_self levels) s d
          cases s with
          | simple t =>
              exact ⟨fun h => Except.ok.inj h ▸ .simple t, fun | .simple _ => rfl⟩
          | method signature =>
              exact ⟨fun h => Except.ok.inj h ▸ .method signature, fun | .method _ => rfl⟩
          | typeParam i =>
              exact ⟨fun h => Except.ok.inj h ▸ .typeParam i, fun | .typeParam _ => rfl⟩
          | methodParam i =>
              exact ⟨fun h => Except.ok.inj h ▸ .methodParam i, fun | .methodParam _ => rfl⟩
          | pointer target =>
              rw [resolveWithin, map_eq_ok_iff]
              exact ⟨fun ⟨_, h, hd⟩ => hd ▸ .pointer (ih'.mp h),
                fun | .pointer h => ⟨_, ih'.mpr h, rfl⟩⟩
          | byRef target =>
              rw [resolveWithin, map_eq_ok_iff]
              exact ⟨fun ⟨_, h, hd⟩ => hd ▸ .byRef (ih'.mp h),
                fun | .byRef h => ⟨_, ih'.mpr h, rfl⟩⟩
          | vector element =>
              rw [resolveWithin, map_eq_ok_iff]
              exact ⟨fun ⟨_, h, hd⟩ => hd ▸ .vector (ih'.mp h),
                fun | .vector h => ⟨_, ih'.mpr h, rfl⟩⟩
          | array element rank =>
              rw [resolveWithin, map_eq_ok_iff]
              exact ⟨fun ⟨_, h, hd⟩ => hd ▸ .array (ih'.mp h),
                fun | .array h => ⟨_, ih'.mpr h, rfl⟩⟩
          | nominal kind t => exact resolveWithin_nominal_eq_ok_iff fun _ hlt => ih _ hlt
          | generic kind definition arguments =>
              rw [resolveWithin, seq_eq_ok_iff]
              constructor
              · rintro ⟨n, hname, h⟩
                obtain ⟨ds, hds, h⟩ := seq_eq_ok_iff.mp h
                cases h
                obtain ⟨hlength, hds⟩ := List.forall₂_iff_zip.mp (mapM_eq_ok_iff.mp hds)
                exact .generic hname hlength fun a d hmem => ih'.mp (hds hmem)
              · intro h
                cases h with
                | generic hname hlength h =>
                    have hds := List.forall₂_iff_zip.mpr
                      ⟨hlength, fun {a d} hmem => ih'.mpr (h a d hmem)⟩
                    exact ⟨_, hname, seq_eq_ok_iff.mpr ⟨_, mapM_eq_ok_iff.mpr hds, rfl⟩⟩

/-- A type that is told with one level is told with one more. -/
theorem Resolves.succ {levels : Nat} {s : TypeSig} {d : TypeDescriptor}
    (h : x.Resolves scope levels s d) : x.Resolves scope (levels + 1) s d := by
  induction h with
  | simple t => exact .simple t
  | method signature => exact .method signature
  | typeParam i => exact .typeParam i
  | methodParam i => exact .methodParam i
  | pointer _ ih => exact .pointer ih
  | byRef _ ih => exact .byRef ih
  | vector _ ih => exact .vector ih
  | array _ ih => exact .array ih
  | specification ht hspecified _ ih => exact .specification ht hspecified ih
  | named ht hname => exact .named ht (x.nameWithin_succ_of_ok hname)
  | generic hname hlength _ ih => exact .generic (x.nameWithin_succ_of_ok hname) hlength ih

/-- **A larger budget finds the same type.** -/
theorem Resolves.mono {levels levels' : Nat} {s : TypeSig} {d : TypeDescriptor}
    (h : x.Resolves scope levels s d) (hle : levels ≤ levels') : x.Resolves scope levels' s d := by
  induction hle with
  | refl => exact h
  | step _ ih => exact ih.succ

end TypeIndex

end AliasStubs
