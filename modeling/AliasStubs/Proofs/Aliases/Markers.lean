import AliasStubs.Aliases.Catalog

/-!
# What the attributes of a method say

A method is an alias if one of its attributes is a marker of aliases, and it is refused if it has
none but a marker of their family. Both are told here from the names in the attributes alone,
without regard to the order in which they are looked at.

The order matters for one thing only: which marker is named. A method that carries several markers
is an alias of the kind of the first, and one that is refused is reported under the first.

## Main definitions

* `AliasMarkers.Recognises`, `AliasMarkers.Refuses` : what one attribute is.
* `AliasMarkers.IsAlias`, `AliasMarkers.IsRefused` : what a method is.
* `IsFirst` : the first member of a list with a property.

## Main results

* `AliasMarkers.verdict_eq_alias_iff`, `AliasMarkers.verdict_eq_unsupported_iff` : **the verdict**
  names the first marker that counts.
* `AliasMarkers.isAlias_congr`, `AliasMarkers.isRefused_congr` : **the order of the attributes**
  does not change what a method is.
-/

namespace AliasStubs

/-! ### First members -/

/-- The element `a` is the first one of a list with the property `p`. -/
def IsFirst {α : Type} (p : α → Prop) (l : List α) (a : α) : Prop :=
  ∃ before after, l = before ++ a :: after ∧ p a ∧ ∀ b ∈ before, ¬ p b

/-- What a search finds is the first member with the property it asks for. -/
theorem find?_eq_some_iff_isFirst {α : Type} {p : α → Prop} {q : α → Bool} {l : List α} {a : α}
    (h : ∀ b, q b = true ↔ p b) : l.find? q = some a ↔ IsFirst p l a := by
  simp only [List.find?_eq_some_iff_append, IsFirst, h, Bool.not_eq_true', ← Bool.not_eq_true]
  constructor
  · rintro ⟨ha, before, after, rfl, hbefore⟩
    exact ⟨before, after, rfl, ha, hbefore⟩
  · rintro ⟨before, after, rfl, ha, hbefore⟩
    exact ⟨ha, before, after, rfl, hbefore⟩

namespace AliasMarkers

variable {markers : AliasMarkers} {a : AttributeType} {attributes : List AttributeType}

/-! ### Attributes -/

/-- Whether an attribute is a marker of aliases. -/
def Recognises (markers : AliasMarkers) (a : AttributeType) : Prop :=
  a.ns = markers.ns ∧ (a.name = markers.method ∨ a.name = markers.property)

/-- Whether an attribute is a marker of the family, but not one of aliases. -/
def Refuses (markers : AliasMarkers) (a : AttributeType) : Prop :=
  a.ns = markers.ns ∧ (∃ stem, a.name = stem ++ markers.familySuffix) ∧ ¬ markers.Recognises a

/-- The kind of alias that a marker stands for. If both kinds have the same marker, it stands for
aliases that are called. -/
def kindOf (markers : AliasMarkers) (a : AttributeType) : AliasKind :=
  if a.name = markers.method then .callable else .property

instance : Decidable (markers.Recognises a) :=
  inferInstanceAs (Decidable (_ ∧ _))

/-- A name that ends in a text is seen by its characters. -/
theorem isSuffixOf_iff {suffix name : String} :
    suffix.toList.isSuffixOf name.toList = true ↔ ∃ stem, name = stem ++ suffix := by
  rw [List.isSuffixOf_iff_suffix]
  constructor
  · rintro ⟨stem, h⟩
    exact ⟨String.ofList stem, String.toList_inj.mp (by rw [String.toList_append,
      String.toList_ofList, h])⟩
  · rintro ⟨stem, rfl⟩
    exact ⟨stem.toList, String.toList_append.symm⟩

theorem refuses_iff : markers.Refuses a ↔
    a.ns = markers.ns ∧ markers.familySuffix.toList.isSuffixOf a.name.toList = true ∧
      ¬ markers.Recognises a := by
  rw [Refuses, isSuffixOf_iff]

instance : Decidable (markers.Refuses a) :=
  decidable_of_iff _ refuses_iff.symm

/-- **What the classification says** of an attribute. -/
theorem classify_eq (markers : AliasMarkers) (a : AttributeType) :
    markers.classify a =
      if markers.Recognises a then .alias (markers.kindOf a)
      else if markers.Refuses a then .unsupported
      else .unrelated := by
  by_cases hns : a.ns = markers.ns
  · rw [classify, if_neg (not_not_intro hns)]
    by_cases hmethod : a.name = markers.method
    · have hrecognised : markers.Recognises a := ⟨hns, .inl hmethod⟩
      rw [if_pos hmethod, if_pos hrecognised, kindOf, if_pos hmethod]
    · by_cases hproperty : a.name = markers.property
      · have hrecognised : markers.Recognises a := ⟨hns, .inr hproperty⟩
        rw [if_neg hmethod, if_pos hproperty, if_pos hrecognised, kindOf, if_neg hmethod]
      · have hnot : ¬ markers.Recognises a := fun h => h.2.elim hmethod hproperty
        rw [if_neg hmethod, if_neg hproperty, if_neg hnot]
        simp only [refuses_iff, hns, hnot, true_and, not_false_eq_true, and_true]
  · have hnot : ¬ markers.Recognises a := fun h => hns h.1
    have hrefused : ¬ markers.Refuses a := fun h => hns h.1
    rw [classify, if_pos hns, if_neg hnot, if_neg hrefused]

theorem Refuses.not_recognises (h : markers.Refuses a) : ¬ markers.Recognises a :=
  h.2.2

theorem kind?_eq (markers : AliasMarkers) (a : AttributeType) :
    markers.kind? a = if markers.Recognises a then some (markers.kindOf a) else none := by
  rw [kind?, classify_eq]
  by_cases hrecognised : markers.Recognises a
  · rw [if_pos hrecognised, if_pos hrecognised]
  · rw [if_neg hrecognised, if_neg hrecognised]
    by_cases hrefused : markers.Refuses a
    · rw [if_pos hrefused]
    · rw [if_neg hrefused]

theorem classify_eq_unsupported_iff : markers.classify a = .unsupported ↔ markers.Refuses a := by
  rw [classify_eq]
  by_cases hrecognised : markers.Recognises a
  · rw [if_pos hrecognised]
    exact iff_of_false nofun fun h => h.not_recognises hrecognised
  · rw [if_neg hrecognised]
    by_cases hrefused : markers.Refuses a
    · rw [if_pos hrefused]
      exact iff_of_true rfl hrefused
    · rw [if_neg hrefused]
      exact iff_of_false nofun hrefused

/-! ### Verdicts -/

/-- The first supported marker is the first attribute that is recognised. -/
theorem findSome?_kind?_eq_some_iff {kind : AliasKind} :
    attributes.findSome? markers.kind? = some kind ↔
      ∃ a, IsFirst markers.Recognises attributes a ∧ markers.kindOf a = kind := by
  rw [List.findSome?_eq_some_iff]
  simp only [kind?_eq, ite_eq_right_iff, reduceCtorEq, imp_false, Option.ite_none_right_eq_some,
    Option.some.injEq]
  constructor
  · rintro ⟨before, a, after, rfl, ⟨hrecognised, hkind⟩, hbefore⟩
    exact ⟨a, ⟨before, after, rfl, hrecognised, hbefore⟩, hkind⟩
  · rintro ⟨a, ⟨before, after, rfl, hrecognised, hbefore⟩, hkind⟩
    exact ⟨before, a, after, rfl, ⟨hrecognised, hkind⟩, hbefore⟩

theorem findSome?_kind?_eq_none_iff :
    attributes.findSome? markers.kind? = none ↔ ∀ a ∈ attributes, ¬ markers.Recognises a := by
  simp only [List.findSome?_eq_none_iff, kind?_eq, ite_eq_right_iff, reduceCtorEq, imp_false]

/-- The first marker that is not supported is the first attribute that is refused. -/
theorem find?_unsupported_eq_some_iff :
    attributes.find? (markers.classify · = .unsupported) = some a ↔
      IsFirst markers.Refuses attributes a :=
  find?_eq_some_iff_isFirst fun b => by rw [decide_eq_true_iff, classify_eq_unsupported_iff]

/-- **A method is an alias of the kind of the first marker** that is recognised. -/
theorem verdict_eq_alias_iff {kind : AliasKind} :
    markers.verdict attributes = .alias kind ↔
      ∃ a, IsFirst markers.Recognises attributes a ∧ markers.kindOf a = kind := by
  rw [← findSome?_kind?_eq_some_iff, verdict]
  cases attributes.findSome? markers.kind? with
  | some found => simp
  | none =>
      simp only [reduceCtorEq, iff_false]
      cases attributes.find? (markers.classify · = .unsupported) <;> exact nofun

/-- **A method that is no alias is reported under the first marker** that is refused. -/
theorem verdict_eq_unsupported_iff {marker : String} :
    markers.verdict attributes = .unsupported marker ↔
      (∀ a ∈ attributes, ¬ markers.Recognises a) ∧
        ∃ a, IsFirst markers.Refuses attributes a ∧ a.name = marker := by
  rw [← findSome?_kind?_eq_none_iff, verdict]
  simp only [← find?_unsupported_eq_some_iff]
  cases attributes.findSome? markers.kind? with
  | some found => simp
  | none =>
      cases attributes.find? (markers.classify · = .unsupported) with
      | none => simp
      | some a => simp

/-! ### Methods -/

variable {m : MethodDefinition} {container : String}

/-- Whether a method carries a marker that is recognised. -/
def IsAlias (markers : AliasMarkers) (m : MethodDefinition) : Prop :=
  ∃ a ∈ m.attributes, markers.Recognises a

/-- Whether a method carries a marker that is refused and none that is recognised. -/
def IsRefused (markers : AliasMarkers) (m : MethodDefinition) : Prop :=
  ¬ markers.IsAlias m ∧ ∃ a ∈ m.attributes, markers.Refuses a

instance : Decidable (markers.IsAlias m) :=
  inferInstanceAs (Decidable (∃ a ∈ m.attributes, markers.Recognises a))

instance : Decidable (markers.IsRefused m) :=
  inferInstanceAs (Decidable (_ ∧ ∃ a ∈ m.attributes, markers.Refuses a))

/-- The alias `a` is the method `m`, unchanged, of the kind of its first marker. -/
structure AliasOf (markers : AliasMarkers) (m : MethodDefinition) (a : AliasMember) : Prop where
  name_eq : a.name = m.name
  parameters_eq : a.parameters = m.parameters
  returnType_eq : a.returnType = m.returnType
  genericParameters_eq : a.genericParameters = m.genericParameters
  kind_eq : ∃ marker, IsFirst markers.Recognises m.attributes marker ∧
    markers.kindOf marker = a.kind

/-- The report `s` is on the method `m` of the class `container`, under its first marker. -/
structure ReportOf (markers : AliasMarkers) (container : String) (m : MethodDefinition)
    (s : SkippedMember) : Prop where
  container_eq : s.container = container
  member_eq : s.member = m.name
  marker_eq : ∃ marker, IsFirst markers.Refuses m.attributes marker ∧ marker.name = s.marker

/-- Some member of a list has a property exactly if there is a first one. -/
theorem exists_isFirst_iff {α : Type} {p : α → Prop} {l : List α} :
    (∃ a, IsFirst p l a) ↔ ∃ a ∈ l, p a := by
  classical
  constructor
  · rintro ⟨a, before, after, rfl, ha, -⟩
    exact ⟨a, by simp, ha⟩
  · rintro ⟨a, hmem, ha⟩
    have hfound : (l.find? (decide <| p ·)).isSome :=
      List.find?_isSome.mpr ⟨a, hmem, decide_eq_true ha⟩
    obtain ⟨first, hfirst⟩ := Option.isSome_iff_exists.mp hfound
    exact ⟨first, (find?_eq_some_iff_isFirst fun b => decide_eq_true_iff).mp hfirst⟩

/-- A method has the verdict of an alias exactly if it carries a marker that is recognised. -/
theorem isAlias_iff : markers.IsAlias m ↔ ∃ kind, markers.verdict m.attributes = .alias kind := by
  rw [IsAlias, ← exists_isFirst_iff]
  simp only [verdict_eq_alias_iff]
  exact ⟨fun ⟨a, h⟩ => ⟨_, a, h, rfl⟩, fun ⟨_, a, h, _⟩ => ⟨a, h⟩⟩

theorem isRefused_iff :
    markers.IsRefused m ↔ ∃ marker, markers.verdict m.attributes = .unsupported marker := by
  rw [IsRefused, ← exists_isFirst_iff, IsAlias]
  simp only [verdict_eq_unsupported_iff, not_exists, not_and]
  exact ⟨fun ⟨hnone, a, h⟩ => ⟨_, hnone, a, h, rfl⟩, fun ⟨_, hnone, a, h, _⟩ => ⟨hnone, a, h⟩⟩

/-- **What is taken for an alias**: exactly the methods that carry a marker. -/
theorem isSome_alias?_iff : (markers.alias? m).isSome ↔ markers.IsAlias m := by
  rw [isAlias_iff, alias?]
  cases markers.verdict m.attributes <;> simp

/-- **What is reported**: exactly the methods that are refused. -/
theorem isSome_skipped?_iff : (markers.skipped? container m).isSome ↔ markers.IsRefused m := by
  rw [isRefused_iff, skipped?]
  cases markers.verdict m.attributes <;> simp

theorem aliasOf_of_alias? {a : AliasMember} (h : markers.alias? m = some a) :
    markers.AliasOf m a := by
  unfold alias? at h
  split at h
  · rename_i kind hverdict
    cases h
    exact ⟨rfl, rfl, rfl, rfl, verdict_eq_alias_iff.mp hverdict⟩
  · cases h

theorem reportOf_of_skipped? {s : SkippedMember} (h : markers.skipped? container m = some s) :
    markers.ReportOf container m s := by
  unfold skipped? at h
  split at h
  · rename_i marker hverdict
    cases h
    exact ⟨rfl, rfl, (verdict_eq_unsupported_iff.mp hverdict).2⟩
  · cases h

/-! ### The order of the attributes -/

section Order

variable {m' : MethodDefinition} (h : m.attributes.Perm m'.attributes)
include h

/-- **Whether a method is an alias does not depend on the order of its attributes.** -/
theorem isAlias_congr : markers.IsAlias m ↔ markers.IsAlias m' := by
  simp only [IsAlias, h.mem_iff]

/-- **Nor does whether it is refused.** -/
theorem isRefused_congr : markers.IsRefused m ↔ markers.IsRefused m' := by
  simp only [IsRefused, isAlias_congr h, h.mem_iff]

end Order

end AliasMarkers

end AliasStubs
