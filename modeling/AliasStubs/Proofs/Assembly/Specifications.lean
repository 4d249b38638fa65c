import AliasStubs.Proofs.Assembly.Resolution
import AliasStubs.Proofs.Metadata.Rows
import Mathlib

/-!
# Type specifications are transparent

A token of a type specification stands for the signature recorded there. To resolve it costs more
levels than to resolve that signature, but it comes to the same type: replacing tokens by what they
stand for, any of them and again in what they are replaced by, never changes a type that is found.

What a token stands for may mention further tokens, and these may lead back to it. The tokens of a
signature that is resolved are well-founded, so from none of them such a circle is reached.

## Main definitions

* `TypeIndex.Unfolds` : some tokens in a signature are replaced by what they stand for.
* `TypeIndex.LeadsTo` : the signature that a token stands for mentions another token.
* `TypeIndex.Circular` : from a token a circle is reached.

## Main results

* `TypeIndex.Resolves.unfold` : **unfolding keeps the type**.
* `TypeIndex.Resolves.acc` : **the tokens of a resolved signature are well-founded**.
* `TypeIndex.specifications_transparent` : types that are found do not depend on the budget and on
  unfolding, and none is found for a signature that leads into a circle.
-/

namespace AliasStubs

namespace TypeIndex

variable {x : TypeIndex} {scope : GenericScope}

/-! ### Unfolding -/

/-- A signature **unfolds** to another one if tokens of type specifications in it are replaced by
the signatures that these record, or by what those unfold to. Any of them may be kept. The
definition of a generic type and the signatures of pointers to methods are left as they are. -/
inductive Unfolds (x : TypeIndex) : TypeSig → TypeSig → Prop
  | refl (s : TypeSig) : Unfolds x s s
  | pointer {s s' : TypeSig} (h : Unfolds x s s') : Unfolds x (.pointer s) (.pointer s')
  | byRef {s s' : TypeSig} (h : Unfolds x s s') : Unfolds x (.byRef s) (.byRef s')
  | vector {s s' : TypeSig} (h : Unfolds x s s') : Unfolds x (.vector s) (.vector s')
  | array {s s' : TypeSig} {rank : Nat} (h : Unfolds x s s') :
      Unfolds x (.array s rank) (.array s' rank)
  | generic {kind : NominalKind} {definition : Token} {as bs : List TypeSig}
      (hlength : as.length = bs.length) (h : ∀ a b, (a, b) ∈ as.zip bs → Unfolds x a b) :
      Unfolds x (.generic kind definition as) (.generic kind definition bs)
  | specification {kind : NominalKind} {t : Token} {specified s : TypeSig}
      (ht : isSpecification t) (hspecified : x.specification t = .ok specified)
      (h : Unfolds x specified s) : Unfolds x (.nominal kind t) s

/-- **Unfolding keeps the type**, within the same budget. -/
theorem Resolves.unfold {levels : Nat} {s s' : TypeSig} {d : TypeDescriptor}
    (h : x.Resolves scope levels s d) (hunfolds : x.Unfolds s s') :
    x.Resolves scope levels s' d := by
  -- Along the derivation. Where a token is replaced, two levels of the budget are left unused.
  induction h generalizing s' with
  | simple t =>
      cases hunfolds with
      | refl => exact .simple t
  | method signature =>
      cases hunfolds with
      | refl => exact .method signature
  | typeParam i =>
      cases hunfolds with
      | refl => exact .typeParam i
  | methodParam i =>
      cases hunfolds with
      | refl => exact .methodParam i
  | pointer h ih =>
      cases hunfolds with
      | refl => exact .pointer h
      | pointer hunfolds => exact .pointer (ih hunfolds)
  | byRef h ih =>
      cases hunfolds with
      | refl => exact .byRef h
      | byRef hunfolds => exact .byRef (ih hunfolds)
  | vector h ih =>
      cases hunfolds with
      | refl => exact .vector h
      | vector hunfolds => exact .vector (ih hunfolds)
  | array h ih =>
      cases hunfolds with
      | refl => exact .array h
      | array hunfolds => exact .array (ih hunfolds)
  | specification ht hspecified h ih =>
      cases hunfolds with
      | refl => exact .specification ht hspecified h
      | specification _ hspecified' hunfolds =>
          cases hspecified.symm.trans hspecified'
          exact (ih hunfolds).mono (Nat.le_add_right _ 2)
  | named ht hname =>
      cases hunfolds with
      | refl => exact .named ht hname
      | specification ht' => exact absurd ht' ht
  | generic hname hlength h ih =>
      cases hunfolds with
      | refl => exact .generic hname hlength h
      | generic hlength' hunfolds =>
          refine .generic hname (hlength'.symm.trans hlength) fun b d hmem => ?_
          obtain ⟨a, hab, had⟩ := exists_mem_zip_of_mem_zip hlength' hmem
          exact ih a d had (hunfolds a b hab)

/-! ### Circles -/

/-- The token of a type specification **leads to** the tokens in the signature that it records. -/
def LeadsTo (x : TypeIndex) (t u : Token) : Prop :=
  isSpecification t ∧ ∃ specified, x.specification t = .ok specified ∧ specified.Mentions u

/-- From a token a **circle** of type specifications is reached. -/
def Circular (x : TypeIndex) (t : Token) : Prop :=
  ∃ u, Relation.ReflTransGen x.LeadsTo t u ∧ Relation.TransGen x.LeadsTo u u

/-- A token from which a circle is reached leads to another one. -/
theorem Circular.exists_leadsTo {t : Token} (h : x.Circular t) :
    ∃ u, x.LeadsTo t u ∧ x.Circular u := by
  obtain ⟨v, hreached, hcircle⟩ := h
  rcases Relation.ReflTransGen.cases_head hreached with rfl | ⟨u, hleads, hreached⟩
  · obtain ⟨u, hleads, hback⟩ := Relation.TransGen.head'_iff.mp hcircle
    exact ⟨u, hleads, t, hback, hcircle⟩
  · exact ⟨u, hleads, v, hreached, hcircle⟩

/-- From a well-founded token no circle is reached. -/
theorem not_circular_of_acc {t : Token} (h : Acc (flip x.LeadsTo) t) : ¬ x.Circular t := by
  induction h with
  | intro t _ ih =>
      intro hcircular
      obtain ⟨u, hleads, hcircular⟩ := hcircular.exists_leadsTo
      exact ih u hleads hcircular

/-- A token that names no type specification leads nowhere. -/
theorem acc_of_not_isSpecification {t : Token} (ht : ¬ isSpecification t) :
    Acc (flip x.LeadsTo) t :=
  Acc.intro t fun _ hleads => absurd hleads.1 ht

/-- **The tokens of a resolved signature are well-founded.** -/
theorem Resolves.acc {levels : Nat} {s : TypeSig} {d : TypeDescriptor}
    (h : x.Resolves scope levels s d) {t : Token} (ht : s.Mentions t) :
    Acc (flip x.LeadsTo) t := by
  induction h generalizing t with
  | simple | method | typeParam | methodParam => cases ht
  | pointer _ ih =>
      cases ht with
      | pointer ht => exact ih ht
  | byRef _ ih =>
      cases ht with
      | byRef ht => exact ih ht
  | vector _ ih =>
      cases ht with
      | vector ht => exact ih ht
  | array _ ih =>
      cases ht with
      | array ht => exact ih ht
  | specification _ hspecified _ ih =>
      cases ht with
      | nominal =>
          refine Acc.intro _ fun u hleads => ?_
          obtain ⟨-, specified, hspecified', hu⟩ := hleads
          cases hspecified.symm.trans hspecified'
          exact ih hu
  | named hnot =>
      cases ht with
      | nominal => exact acc_of_not_isSpecification hnot
  | generic hname hlength _ ih =>
      cases ht with
      | definition =>
          exact acc_of_not_isSpecification fun hspec => x.not_named_of_isSpecification hspec hname
      | argument ha ht =>
          obtain ⟨d, hmem⟩ := exists_mem_zip_of_mem_left hlength ha
          exact ih _ d hmem ht

/-! ### Main result -/

/-- **Type specifications are transparent.** A type that is found within a budget of levels is found
within every larger one, and it is the type of whatever the signature unfolds to. If from a token in
the signature a circle of type specifications is reached, no budget suffices. -/
theorem specifications_transparent (x : TypeIndex) (scope : GenericScope) (levels : Nat)
    (s : TypeSig) :
    (∀ d, x.resolveWithin scope levels s = .ok d →
      (∀ levels', levels ≤ levels' → x.resolveWithin scope levels' s = .ok d) ∧
      ∀ s', x.Unfolds s s' → x.resolveWithin scope levels s' = .ok d) ∧
    ∀ t, s.Mentions t → x.Circular t → ∃ e, x.resolveWithin scope levels s = .error e := by
  constructor
  · intro d h
    have hresolves := resolveWithin_eq_ok_iff.mp h
    exact ⟨fun levels' hle => resolveWithin_eq_ok_iff.mpr (hresolves.mono hle),
      fun s' hunfolds => resolveWithin_eq_ok_iff.mpr (hresolves.unfold hunfolds)⟩
  · intro t ht hcircular
    cases h : x.resolveWithin scope levels s with
    | error e => exact ⟨e, rfl⟩
    | ok d =>
        have hacc := (resolveWithin_eq_ok_iff.mp h).acc ht
        exact absurd hcircular (not_circular_of_acc hacc)

end TypeIndex

/-! ### Sample -/

/-- The layout of three type specifications. -/
def specifiedLayout : Layout where
  rowCount
    | .typeSpec => 3
    | _ => 0
  wideStrings := false
  wideGuids := false
  wideBlobs := false

/-- Three type specifications: a pointer to what the second one stands for, an array of integers,
and a pointer to what it stands for itself. -/
def specified : Metadata where
  tables :=
    { majorVersion := 2
      minorVersion := 0
      valid := 0x8000000
      sorted := 0
      layout := specifiedLayout
      tables :=
        [(.typeSpec, ⟨(TableRow.bytesOf (α := TypeSpecRow) specifiedLayout
          [⟨1, 1⟩, ⟨2, 5⟩, ⟨3, 8⟩]).toArray⟩)] }
  strings := ⟨⟨#[0]⟩⟩
  blobs := some ⟨⟨#[0, 3, 0x0F, 0x12, 0x0A, 2, 0x1D, 0x08, 3, 0x0F, 0x12, 0x0E]⟩⟩

/-- The index of the sample, which defines no types. -/
def specifiedIndex : TypeIndex :=
  ⟨specified, #[], .ofList []⟩

/-- A class by the token of a row of the sample. -/
def specifiedClass (row : Nat) : TypeSig :=
  .nominal .reference (TableId.typeSpec.token row)

theorem specification_specified :
    specifiedIndex.specification (TableId.typeSpec.token 1) = .ok (.pointer (specifiedClass 2)) ∧
    specifiedIndex.specification (TableId.typeSpec.token 2) = .ok (.vector (.simple .i4)) ∧
    specifiedIndex.specification (TableId.typeSpec.token 3) = .ok (.pointer (specifiedClass 3)) := by
  refine ⟨?_, ?_, ?_⟩ <;> cbv

/-- A pointer to an array is found, also if it is spelled out and if more levels are granted. No
type is found for the pointer to itself. -/
theorem specifications_transparent_specified :
    specifiedIndex.resolveWithin ⟨#[], #[]⟩ 9 (.pointer (.vector (.simple .i4))) =
      .ok (.pointer (.array (.primitive .int32) 1)) ∧
    specifiedIndex.resolveWithin ⟨#[], #[]⟩ maxLevels (specifiedClass 1) =
      .ok (.pointer (.array (.primitive .int32) 1)) ∧
    ∃ e, specifiedIndex.resolveWithin ⟨#[], #[]⟩ maxLevels (specifiedClass 3) = .error e := by
  obtain ⟨hfirst, hsecond, hthird⟩ := specification_specified
  have hfound : specifiedIndex.resolveWithin ⟨#[], #[]⟩ 9 (specifiedClass 1) =
      .ok (.pointer (.array (.primitive .int32) 1)) := by
    cbv
  have hunfolds : specifiedIndex.Unfolds (specifiedClass 1) (.pointer (.vector (.simple .i4))) :=
    .specification rfl hfirst (.pointer (.specification rfl hsecond (.refl _)))
  have hcircle : specifiedIndex.LeadsTo (TableId.typeSpec.token 3) (TableId.typeSpec.token 3) :=
    ⟨rfl, _, hthird, .pointer (.nominal _ _)⟩
  obtain ⟨hlarger, hunfolded⟩ :=
    (TypeIndex.specifications_transparent specifiedIndex ⟨#[], #[]⟩ 9 _).1 _ hfound
  have hnever :=
    (TypeIndex.specifications_transparent specifiedIndex ⟨#[], #[]⟩ maxLevels _).2
      (TableId.typeSpec.token 3) (.nominal .reference _) ⟨_, .refl, .single hcircle⟩
  exact ⟨hunfolded _ hunfolds, hlarger maxLevels (by decide), hnever⟩

end AliasStubs
