import AliasStubs.Proofs.Assembly.Generics
import Mathlib

/-!
# Placeholders for generic parameters

A generic parameter without a row is called by its position. Two rules make such names. The
signature of a method counts the generic parameters of the method, and a list of as many
placeholders is made for them: these have the letter `T` and are numbered from one, but a single one
has no number. All other positions are numbered from zero, those of types with the letter `T` and
those of methods with the letter `M`.

The letters of the second rule keep types and methods apart, but the placeholders of the first rule
have the letter of types. So the placeholder of a method at the position `k` is also the name of the
type's generic parameter at the position `k + 1`. Other positions never share a name.

## Main definitions

* `GenericPosition.placeholder` : the name of a generic parameter without a row.
* `GenericPosition.Captured` : different positions that have one name.

## Main results

* `GenericPosition.placeholder_eq_iff` : two positions have one name **exactly if they are the same
  or one captures the other**.
* `Metadata.types_placeholders` : so it is for all places of all methods without rows.
-/

namespace AliasStubs

/-! ### Numbered names -/

/-- A name made from a position: a letter, and a number unless the letter is enough. -/
structure NumberedName where
  letter : Char
  number : Option Nat
  deriving DecidableEq

namespace NumberedName

/-- The name as it is told. -/
def text (n : NumberedName) : String :=
  String.singleton n.letter ++ n.number.elim "" toString

/-- **Different names are told differently**: a number is never written with no digits. -/
theorem text_injective : Function.Injective text := by
  rintro ⟨letter, number⟩ ⟨letter', number'⟩ h
  have hchars := congrArg String.toList h
  simp only [text, String.toList_append, String.toList_singleton, List.singleton_append,
    List.cons.injEq, String.toList_inj] at hchars
  obtain ⟨rfl, hdigits⟩ := hchars
  cases number with
  | none =>
      cases number' with
      | none => rfl
      | some i => exact absurd hdigits.symm Nat.repr_ne_empty
  | some i =>
      cases number' with
      | none => exact absurd hdigits Nat.repr_ne_empty
      | some j => rw [Nat.repr_injective hdigits]

end NumberedName

/-! ### Names of positions -/

namespace GenericPosition

/-- The name of a generic parameter **without a row**, if the signature of the method counts `count`
generic parameters. -/
def placeholder (count : Nat) : GenericPosition → NumberedName
  | ofType i => ⟨'T', some i⟩
  | ofMethod i =>
    if i < count then ⟨'T', if count = 1 then none else some (i + 1)⟩ else ⟨'M', some i⟩

/-- A placeholder of the method **captures** the name of a generic parameter of the type. The
placeholders are numbered from one, but the positions of the type from zero. -/
inductive Captured (count : Nat) : GenericPosition → GenericPosition → Prop
  | numbered {k : Nat} (hk : k < count) (hmany : count ≠ 1) :
      Captured count (ofType (k + 1)) (ofMethod k)

variable {count : Nat} {g g' : GenericPosition}

theorem Captured.placeholder_eq (h : Captured count g g') :
    placeholder count g = placeholder count g' := by
  obtain ⟨hk, hmany⟩ := h
  rw [placeholder, placeholder, if_pos hk, if_neg hmany]

/-- Two generic parameters of a method have different names. -/
theorem eq_of_placeholder_ofMethod {i j : Nat}
    (h : placeholder count (ofMethod i) = placeholder count (ofMethod j)) : i = j := by
  -- Both positions are below the count or neither is, since the letters are the same.
  simp only [placeholder] at h
  split_ifs at h with hi hone hj hj hj hj <;>
    simp only [NumberedName.mk.injEq, Option.some.injEq, reduceCtorEq, and_false, Char.reduceEq,
      false_and] at h
  · omega
  · omega
  · exact h.2

/-- **Only placeholders of the method capture names of the type.** -/
theorem captured_of_placeholder_eq {i j : Nat}
    (h : placeholder count (ofType i) = placeholder count (ofMethod j)) :
    Captured count (ofType i) (ofMethod j) := by
  simp only [placeholder] at h
  split_ifs at h with hj hone
  · exact absurd h (by simp)
  · obtain rfl : i = j + 1 := by simpa using h
    exact .numbered hj hone
  · exact absurd h (by simp)

/-- **Two positions have one name exactly if they are the same or one captures the other.** -/
theorem placeholder_eq_iff : placeholder count g = placeholder count g' ↔
    g = g' ∨ Captured count g g' ∨ Captured count g' g := by
  constructor
  · intro h
    cases g with
    | ofType i =>
        cases g' with
        | ofType j => exact .inl (by simpa [placeholder] using h)
        | ofMethod j => exact .inr (.inl (captured_of_placeholder_eq h))
    | ofMethod i =>
        cases g' with
        | ofType j => exact .inr (.inr (captured_of_placeholder_eq h.symm))
        | ofMethod j => exact .inl (congrArg ofMethod (eq_of_placeholder_ofMethod h))
  · rintro (rfl | h | h)
    · rfl
    · exact h.placeholder_eq
    · exact h.placeholder_eq.symm

end GenericPosition

/-! ### Methods without rows -/

/-- The placeholder at a position of a method, if there are as many. -/
theorem getElem?_placeholderNames (count i : Nat) : (placeholderNames count)[i]? =
    if i < count then some (if count = 1 then "T" else "T" ++ toString (i + 1)) else none := by
  rw [placeholderNames]
  by_cases hone : count = 1
  · subst hone
    rw [if_pos rfl, List.getElem?_singleton]
    simp only [Nat.lt_one_iff, if_pos]
  · rw [if_neg hone, if_neg hone, List.getElem?_map]
    by_cases hi : i < count
    · rw [if_pos hi, List.getElem?_range hi, Option.map_some]
    · rw [if_neg hi, List.getElem?_eq_none (by simpa using hi), Option.map_none]

namespace Introspection

variable {x : Introspection} {m : Metadata} {c : TypeDefRow} {p : Nat} {r : MethodDefRow}
  {s : MethodSig TypeSig} {d : MethodDefinition}

/-- Without rows, all generic parameters are called by their positions. -/
theorem nameOf_scopeOf (htype : x.generics.names ⟨.typeDef, c.rid⟩ = [])
    (hmethod : x.generics.names ⟨.methodDef, r.rid⟩ = []) (g : GenericPosition) :
    (x.scopeOf (x.typeParams c) r s).nameOf g = (g.placeholder s.genericCount).text := by
  cases g with
  | ofType i =>
      rw [GenericScope.nameOf, GenericScope.typeParam, scopeOf, typeParams, htype]
      rfl
  | ofMethod i =>
      rw [GenericScope.nameOf, GenericScope.methodParam, scopeOf, methodGenerics, hmethod,
        List.getElem?_toArray, getElem?_placeholderNames, GenericPosition.placeholder]
      split_ifs <;> rfl

end Introspection

/-- **Placeholders of generic parameters.** If the types of metadata are told, every method is told
from a row with a signature. If no row names a generic parameter of the method or of its type, then
the generic parameters that lie at two places of the signature are told there by names. These are
different for different positions, except where a placeholder of the method captures the name of a
generic parameter of the type. -/
theorem Metadata.types_placeholders (m : Metadata) {ts : List TypeDefinition} (h : m.types = .ok ts) :
    ∃ (x : Introspection) (rows : Array GenericParamRow), x.JoinedFrom m ∧
      m.tables.rows GenericParamRow = .ok rows ∧
      ∀ i j d, methodAt? ts i j = some d → ∃ c r s, x.HasMethod i j c ∧
        x.methods[x.methodPosition i j]? = some r ∧
        x.Loads (x.typeParams c) (x.methodPosition i j) r s d ∧
        ((∀ row ∈ rows.toList, row.owner ≠ ⟨.typeDef, c.rid⟩) →
          (∀ row ∈ rows.toList, row.owner ≠ ⟨.methodDef, r.rid⟩) →
          ∀ (g g' : GenericPosition) (place place' : List Nat), x.index.LiesIn s place g.signature →
            x.index.LiesIn s place' g'.signature →
            ∃ name name', d.at? place = some (.parameter name) ∧
              d.at? place' = some (.parameter name') ∧
              (name = name' ↔ g = g' ∨ g.Captured s.genericCount g' ∨
                g'.Captured s.genericCount g)) := by
  obtain ⟨x, hx, htells⟩ := types_eq_ok_iff.mp h
  obtain ⟨rows, -, hrows, -, -⟩ := GenericNames.read_eq_ok_iff.mp hx.generics
  refine ⟨x, rows, hx, hrows, fun i j d hd => ?_⟩
  obtain ⟨c, r, s, hc, hr, hloads⟩ := Introspection.exists_loads_of_methodAt? htells hd
  refine ⟨c, r, s, hc, hr, hloads, fun htype hmethod g g' place place' hg hg' => ?_⟩
  have hname := x.nameOf_scopeOf (GenericNames.names_eq_nil hrows hx.generics htype)
    (GenericNames.names_eq_nil hrows hx.generics hmethod) (s := s)
  refine ⟨_, _, hloads.at?_generic hg, hloads.at?_generic hg', ?_⟩
  rw [hname, hname, NumberedName.text_injective.eq_iff, GenericPosition.placeholder_eq_iff]

/-! ### Sample -/

/-- What is told of the method in the sample without rows. -/
def unnamedMethod : MethodDefinition where
  name := "Map"
  attributes := []
  parameters := [⟨"arg1", .array (.parameter "T1") 1⟩, ⟨"arg2", .pointer (.parameter "T1")⟩]
  returnType := .primitive .void
  genericParameters := ["T1", "T2"]

theorem types_unnamed :
    (paired []).types = .ok [⟨"", "Pair`2", ⟨false, true, true⟩, [unnamedMethod]⟩] := by
  cbv

/-- **Two generic parameters of the sample share a name**: the second one of the type and the first
one of the method. -/
theorem Metadata.types_placeholders_unnamed :
    (paired []).types = .ok [⟨"", "Pair`2", ⟨false, true, true⟩, [unnamedMethod]⟩] ∧
    ∃ (x : Introspection) (name : String), x.JoinedFrom (paired []) ∧
      x.index.LiesIn pairedSignature [1, 0] (.typeParam 1) ∧
      x.index.LiesIn pairedSignature [2, 0] (.methodParam 0) ∧
      unnamedMethod.at? [1, 0] = some (.parameter name) ∧
      unnamedMethod.at? [2, 0] = some (.parameter name) := by
  obtain ⟨x, rows, hx, hrows, hall⟩ := types_placeholders (paired []) types_unnamed
  obtain rfl : #[] = rows := Except.ok.inj (Eq.trans (by cbv) hrows)
  obtain ⟨c, r, s, hc, hr, hloads, hnames⟩ := hall 0 0 unnamedMethod rfl
  obtain ⟨rfl, rfl⟩ := loads_paired hx (by cbv) hr hloads
  have htype := liesIn_paired_typeParam x.index
  have hmethod := liesIn_paired_methodParam x.index
  obtain ⟨name, name', hat, hat', hiff⟩ := hnames (by simp) (by simp) (.ofType 1) (.ofMethod 0)
    [1, 0] [2, 0] htype hmethod
  obtain rfl := hiff.mpr (.inr (.inl (.numbered (by decide) (by decide))))
  exact ⟨types_unnamed, x, name, hx, htype, hmethod, hat, hat'⟩

end AliasStubs
