import AliasStubs.Proofs.Assembly.Methods
import AliasStubs.Proofs.Assembly.Resolution
import AliasStubs.Proofs.Types.Parts

/-!
# Places in signatures

A signature and the type that it resolves to have the same shape: what lies at a place in the
signature resolves to what lies at this place in the type. A token of a type specification lies at
its place together with the signature recorded for it, and with all that lies in that. The places in
a method are those in its return type and in the types of its parameters.

So a generic parameter, wherever it lies in the signature of a method, is told by its name at the
same place of the method.

## Main definitions

* `TypeIndex.LiesAt` and `TypeIndex.LiesIn` : what lies at a place in the signature of a type and of
  a method.
* `MethodDefinition.at?` : the type at a place of a method.
* `GenericPosition` : a generic parameter by its position, as signatures refer to it.

## Main results

* `TypeIndex.Resolves.exists_at` : **what lies at a place resolves to what lies there**.
* `Introspection.Loads.at?_generic` : generic parameters are told by their names, **at every place**.
-/

namespace AliasStubs

/-! ### Types -/

/-- The signatures that are resolved for the parts of a type. The signature of a pointer to a method
is not, and neither is the definition of a generic type. -/
def TypeSig.resolvedParts : TypeSig → List TypeSig
  | .generic _ _ arguments => arguments
  | .array element _ => [element]
  | .vector element => [element]
  | .pointer target => [target]
  | .byRef target => [target]
  | .simple _ | .nominal _ _ | .typeParam _ | .methodParam _ | .method _ => []

namespace TypeIndex

/-- What **lies at a place** in the signature of a type. What a type specification stands for lies
at the place of its token. -/
inductive LiesAt (x : TypeIndex) : (place : List Nat) → TypeSig → TypeSig → Prop
  | self (s : TypeSig) : LiesAt x [] s s
  | part {i : Nat} {place : List Nat} {s part u : TypeSig} (hpart : s.resolvedParts[i]? = some part)
      (h : LiesAt x place part u) : LiesAt x (i :: place) s u
  | specification {kind : NominalKind} {t : Token} {place : List Nat} {specified u : TypeSig}
      (ht : isSpecification t) (hspecified : x.specification t = .ok specified)
      (h : LiesAt x place specified u) : LiesAt x place (.nominal kind t) u

variable {x : TypeIndex} {scope : GenericScope}

/-- The parts of a signature resolve to the parts of its type. -/
theorem Resolves.exists_part {levels i : Nat} {s part : TypeSig} {d : TypeDescriptor}
    (h : x.Resolves scope levels s d) (hpart : s.resolvedParts[i]? = some part) :
    ∃ e levels', d.parts[i]? = some e ∧ x.Resolves scope levels' part e := by
  -- Apart from a generic type, a construction has one part at most.
  have hone {target : TypeSig} (htarget : [target][i]? = some part) : i = 0 ∧ target = part := by
    rw [List.getElem?_singleton] at htarget
    split at htarget
    · rename_i hi
      exact ⟨hi, Option.some.inj htarget⟩
    · cases htarget
  cases h with
  | simple | method | typeParam | methodParam | specification | named => cases hpart
  | pointer h | byRef h | vector h | array h =>
      obtain ⟨rfl, rfl⟩ := hone hpart
      exact ⟨_, _, rfl, h⟩
  | @generic _ _ _ arguments _ ds _ hlength h =>
      have hi : i < arguments.length := (List.getElem?_eq_some_iff.mp hpart).1
      have hd : ds[i]? = some ds[i] := List.getElem?_eq_getElem (hlength ▸ hi)
      have hmem : (part, ds[i]) ∈ arguments.zip ds :=
        List.mem_of_getElem? (List.getElem?_zip_eq_some.mpr ⟨hpart, hd⟩)
      exact ⟨ds[i], _, hd, h part ds[i] hmem⟩

/-- **What lies at a place in a signature resolves to what lies there in the type.** -/
theorem Resolves.exists_at {levels : Nat} {place : List Nat} {s u : TypeSig} {d : TypeDescriptor}
    (h : x.Resolves scope levels s d) (hu : x.LiesAt place s u) :
    ∃ e levels', d.at? place = some e ∧ x.Resolves scope levels' u e := by
  -- On the way to the place. A type specification is resolved at the place of its token.
  induction hu generalizing levels d with
  | self s => exact ⟨d, levels, rfl, h⟩
  | part hpart _ ih =>
      obtain ⟨b, levels', hb, hresolves⟩ := h.exists_part hpart
      obtain ⟨e, levels'', he, hu⟩ := ih hresolves
      refine ⟨e, levels'', ?_, hu⟩
      rw [TypeDescriptor.at?, hb]
      exact he
  | specification ht hspecified _ ih =>
      cases h with
      | specification _ hspecified' h =>
          obtain rfl := Except.ok.inj (hspecified'.symm.trans hspecified)
          exact ih h
      | named hnot => exact absurd ht hnot

end TypeIndex

/-! ### Generic parameters -/

/-- A generic parameter by its position, as signatures refer to it. -/
inductive GenericPosition
  /-- A generic parameter of the declaring type. -/
  | ofType (i : Nat)
  /-- A generic parameter of the method. -/
  | ofMethod (i : Nat)
  deriving DecidableEq

/-- The signature that refers to a generic parameter. -/
def GenericPosition.signature : GenericPosition → TypeSig
  | ofType i => .typeParam i
  | ofMethod i => .methodParam i

/-- What a generic parameter is called. -/
def GenericScope.nameOf (scope : GenericScope) : GenericPosition → String
  | .ofType i => scope.typeParam i
  | .ofMethod i => scope.methodParam i

/-- **A generic parameter is told by its name**, at every place of a type. -/
theorem TypeIndex.Resolves.at?_generic {x : TypeIndex} {scope : GenericScope} {levels : Nat}
    {place : List Nat} {s : TypeSig} {d : TypeDescriptor} {g : GenericPosition}
    (h : x.Resolves scope levels s d) (hg : x.LiesAt place s g.signature) :
    d.at? place = some (.parameter (scope.nameOf g)) := by
  obtain ⟨e, levels', he, hresolves⟩ := h.exists_at hg
  rw [he]
  cases g with
  | ofType i =>
      cases hresolves with
      | typeParam => rfl
  | ofMethod i =>
      cases hresolves with
      | methodParam => rfl

/-! ### Methods -/

/-- The signatures of the values of a method: the one that it returns, and its fixed parameters. -/
def MethodSig.values {τ : Type} (s : MethodSig τ) : List (ParamSig τ) :=
  s.ret :: s.params

/-- The types of the values of a method: the one that it returns, and its parameters. -/
def MethodDefinition.valueTypes (d : MethodDefinition) : List TypeDescriptor :=
  d.returnType :: d.parameters.map (·.type)

/-- The type at a place of a method. The place starts with the number of the value. -/
def MethodDefinition.at? (d : MethodDefinition) : (place : List Nat) → Option TypeDescriptor
  | [] => none
  | i :: place => d.valueTypes[i]?.bind (·.at? place)

/-- What **lies at a place** in the signature of a method. The type of a value that is passed by
reference is a part of the reference. -/
def TypeIndex.LiesIn (x : TypeIndex) (s : MethodSig TypeSig) (place : List Nat) (u : TypeSig) :
    Prop :=
  ∃ i p inner, s.values[i]? = some p ∧ x.LiesAt inner p.type u ∧
    place = i :: if p.byRef then 0 :: inner else inner

namespace Introspection

variable {x : Introspection} {typeParams : Array String} {p : Nat} {r : MethodDefRow}
  {s : MethodSig TypeSig} {d : MethodDefinition}

/-- The values of a method have the types that their signatures resolve to, or references to
these. -/
theorem Loads.exists_resolve (h : x.Loads typeParams p r s d) {i : Nat} {q : ParamSig TypeSig}
    (hq : s.values[i]? = some q) :
    ∃ type kind, x.index.resolve (x.scopeOf typeParams r s) q.type = .ok type ∧
      d.valueTypes[i]? = some (if q.byRef then .byRef type kind else type) := by
  cases i with
  | zero =>
      obtain rfl : s.ret = q := Option.some.inj hq
      obtain ⟨type, hresolve, hreturn⟩ := seq_eq_ok_iff.mp h.returnType
      exact ⟨type, .ref, hresolve, congrArg some (Except.ok.inj hreturn).symm⟩
  | succ i =>
      have hparam : s.params.zipIdx[i]? = some (q, i) := by
        rw [List.getElem?_zipIdx, show s.params[i]? = some q from hq, Option.map_some, Nat.zero_add]
      obtain ⟨d', hd', name, attributes, type, -, hresolve, -, htype⟩ :=
        exists_getElem?_right h.parameters hparam
      refine ⟨type, attributes.refKind, hresolve, ?_⟩
      rw [MethodDefinition.valueTypes, List.getElem?_cons_succ, List.getElem?_map, hd',
        Option.map_some, htype]

/-- **A generic parameter is told by its name**, at every place of a method. -/
theorem Loads.at?_generic (h : x.Loads typeParams p r s d) {place : List Nat} {g : GenericPosition}
    (hg : x.index.LiesIn s place g.signature) :
    d.at? place = some (.parameter ((x.scopeOf typeParams r s).nameOf g)) := by
  obtain ⟨i, q, inner, hq, hlies, rfl⟩ := hg
  obtain ⟨type, kind, hresolve, hvalue⟩ := h.exists_resolve hq
  have hat : type.at? inner = some (.parameter ((x.scopeOf typeParams r s).nameOf g)) :=
    (TypeIndex.resolveWithin_eq_ok_iff.mp hresolve).at?_generic hlies
  rw [MethodDefinition.at?, hvalue]
  cases q.byRef with
  | false => exact hat
  | true => exact hat

end Introspection

end AliasStubs
