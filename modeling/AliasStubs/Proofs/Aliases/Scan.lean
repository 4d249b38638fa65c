import AliasStubs.Proofs.Aliases.Markers
import Mathlib.Data.List.Forall2

/-!
# What a scan finds

A scan is run as three nested loops: over the modules, over the types of a module and over the
methods of a type, each of which goes on where the one before has stopped. All of them write to the
same three lists. A module whose types cannot be told is passed over, and so is a type that is no
static class; and a class without aliases leaves no entry, although its methods may have been
reported by then.

What is found is told here without the loops. Every module contributes on its own: its entries are
its static classes with an alias, and the reports are on the methods of its static classes that are
refused, whether or not there is an entry for the class. Both come in the order of the metadata.

## Main definitions

* `Scan.run` : the loops; `Scan.readModule`, `Scan.readClass` and `Scan.readMethod` are their steps.
* `Scan.append` : two scans, one behind the other.
* `AliasMarkers.EntryOf`, `AliasMarkers.Contributes` : what a class and a module contribute.

## Main results

* `Scan.run_eq` : **the loops come to the scan**.
* `contributes_scan` : what one module contributes.
* `scan_follows_markers` : **a scan finds exactly what the markers say**.
-/

namespace AliasStubs

variable {markers : AliasMarkers}

/-! ### The loops -/

/-- The loop over the attributes of a method. A marker that is recognised ends it; one that is
refused is kept as the `result`. -/
def AliasMarkers.matchFrom (markers : AliasMarkers) :
    List AttributeType → (result : MarkerMatch) → MarkerMatch
  | [], result => result
  | a :: rest, result =>
    match markers.classify a with
    | .alias kind => .alias kind
    | .unsupported => markers.matchFrom rest .unsupported
    | .unrelated => markers.matchFrom rest result

namespace Scan

/-- Two scans, one behind the other. -/
def append (s s' : Scan) : Scan where
  catalog := s.catalog ++ s'.catalog
  moduleFailures := s.moduleFailures ++ s'.moduleFailures
  skippedMembers := s.skippedMembers ++ s'.skippedMembers

/-- A step of the loop over the methods of the class `container`: the method joins the aliases or is
reported, behind those before it. -/
def readMethod (markers : AliasMarkers) (container : String)
    (found : List AliasMember × List SkippedMember) (m : MethodDefinition) :
    List AliasMember × List SkippedMember :=
  match markers.matchFrom m.attributes .unrelated with
  | .alias kind =>
    (found.1 ++ [⟨m.name, kind, m.parameters, m.returnType, m.genericParameters⟩], found.2)
  | .unsupported =>
    let marker := m.attributes.find? (markers.classify · = .unsupported)
    (found.1, found.2 ++ [⟨container, m.name, (marker.map (·.name)).getD ""⟩])
  | .unrelated => found

/-- A step of the loop over the types of a module. The reports go to the list of the whole scan,
the aliases to one of their own, from which the entry is made. -/
def readClass (markers : AliasMarkers) (s : Scan) (t : TypeDefinition) : Scan :=
  if t.isStatic then
    match t.methods.foldl (readMethod markers t.name) ([], s.skippedMembers) with
    | ([], skipped) => { s with skippedMembers := skipped }
    | (aliases, skipped) =>
      { s with catalog := s.catalog ++ [⟨t.ns, t.name, aliases⟩], skippedMembers := skipped }
  else
    s

/-- A step of the loop over the modules. -/
def readModule (markers : AliasMarkers) (s : Scan) (m : Module) : Scan :=
  match m.types with
  | .error cause => { s with moduleFailures := s.moduleFailures ++ [⟨m.name, cause⟩] }
  | .ok types => types.foldl (readClass markers) s

/-- The loop over the modules. -/
def run (markers : AliasMarkers) (modules : List Module) : Scan :=
  modules.foldl (readModule markers) ⟨[], [], []⟩

end Scan

/-! ### What the loops come to -/

/-- What the loop over the attributes comes to for a verdict. -/
def AliasVerdict.toMatch : AliasVerdict → MarkerMatch
  | .alias kind => .alias kind
  | .unsupported _ => .unsupported
  | .unrelated => .unrelated

/-- The loop over the attributes finds the first supported marker, and without one it keeps whether
there is one that is not supported. -/
theorem AliasMarkers.matchFrom_eq (attributes : List AttributeType) (result : MarkerMatch) :
    markers.matchFrom attributes result =
      match attributes.findSome? markers.kind? with
      | some kind => .alias kind
      | none =>
        if (attributes.find? (markers.classify · = .unsupported)).isSome then .unsupported
        else result := by
  induction attributes generalizing result with
  | nil => rfl
  | cons a rest ih =>
      rw [matchFrom, List.findSome?_cons, List.find?_cons, kind?]
      cases h : markers.classify a with
      | «alias» kind => rfl
      | unsupported =>
          simp only [ih, decide_true, Option.isSome_some, if_true]
          cases rest.findSome? markers.kind? <;> simp
      | unrelated => simp [ih]

/-- **The loop over the attributes comes to the verdict.** -/
theorem AliasMarkers.matchFrom_unrelated (attributes : List AttributeType) :
    markers.matchFrom attributes .unrelated = (markers.verdict attributes).toMatch := by
  rw [matchFrom_eq, verdict]
  cases attributes.findSome? markers.kind? with
  | some kind => rfl
  | none => cases attributes.find? (markers.classify · = .unsupported) <;> rfl

namespace Scan

/-- **One method**: it joins the aliases, is reported, or neither. -/
theorem readMethod_eq (container : String) (aliases : List AliasMember)
    (skipped : List SkippedMember) (m : MethodDefinition) :
    readMethod markers container (aliases, skipped) m =
      (aliases ++ (markers.alias? m).toList, skipped ++ (markers.skipped? container m).toList) := by
  rw [readMethod, AliasMarkers.matchFrom_unrelated, AliasMarkers.alias?, AliasMarkers.skipped?]
  cases hverdict : markers.verdict m.attributes with
  | «alias» kind => simp [AliasVerdict.toMatch]
  | unrelated => simp [AliasVerdict.toMatch]
  | unsupported marker =>
      obtain ⟨-, a, hfirst, rfl⟩ := AliasMarkers.verdict_eq_unsupported_iff.mp hverdict
      rw [← AliasMarkers.find?_unsupported_eq_some_iff] at hfirst
      simp [AliasVerdict.toMatch, hfirst]

/-- All methods of a class, behind what has been found before. -/
theorem foldl_readMethod (container : String) (methods : List MethodDefinition)
    (aliases : List AliasMember) (skipped : List SkippedMember) :
    methods.foldl (readMethod markers container) (aliases, skipped) =
      (aliases ++ methods.filterMap markers.alias?,
        skipped ++ methods.filterMap (markers.skipped? container)) := by
  induction methods generalizing aliases skipped with
  | nil => simp
  | cons m methods ih =>
      rw [List.foldl_cons, readMethod_eq, ih, List.append_assoc, List.append_assoc]
      cases h : markers.alias? m <;> cases h' : markers.skipped? container m <;> simp [h, h']

/-- The scan of a module whose types are `types`, as far as they go. -/
def ofTypes (markers : AliasMarkers) (types : List TypeDefinition) : Scan where
  catalog := (types.filter (·.isStatic)).filterMap markers.container?
  moduleFailures := []
  skippedMembers :=
    (types.filter (·.isStatic)).flatMap fun t => t.methods.filterMap (markers.skipped? t.name)

theorem append_assoc (s s' s'' : Scan) : (s.append s').append s'' = s.append (s'.append s'') := by
  simp [append]

/-- **One type**: a static class leaves an entry if it has aliases, and its reports in any case. -/
theorem readClass_eq (s : Scan) (t : TypeDefinition) :
    readClass markers s t = s.append (ofTypes markers [t]) := by
  rw [readClass, ofTypes, append]
  by_cases hstatic : t.isStatic = true
  · rw [if_pos hstatic, foldl_readMethod, List.nil_append, List.filter_cons_of_pos hstatic]
    cases haliases : t.methods.filterMap markers.alias? with
    | nil => simp [AliasMarkers.container?, haliases]
    | cons a aliases => simp [AliasMarkers.container?, haliases]
  · rw [if_neg hstatic, List.filter_cons_of_neg hstatic]
    simp

/-- All types of a module, behind what has been found before. -/
theorem foldl_readClass (types : List TypeDefinition) (s : Scan) :
    types.foldl (readClass markers) s = s.append (ofTypes markers types) := by
  induction types generalizing s with
  | nil => simp [append, ofTypes]
  | cons t types ih =>
      have hcons : (ofTypes markers [t]).append (ofTypes markers types) =
          ofTypes markers (t :: types) := by
        rw [append, ofTypes, ofTypes, ofTypes, List.nil_append, ← List.filterMap_append,
          ← List.flatMap_append, ← List.filter_append, List.singleton_append]
      rw [List.foldl_cons, ih, readClass_eq, append_assoc, hcons]

end Scan

/-- **Scans are independent of each other.** What is found in two lists of modules is found in each
of them. -/
theorem scan_append (modules modules' : List Module) :
    scan markers (modules ++ modules') = (scan markers modules).append (scan markers modules') := by
  simp [scan, Scan.append]

/-- The scan of a module whose types are told. -/
theorem scan_singleton_of_ok {m : Module} {types : List TypeDefinition} (h : m.types = .ok types) :
    scan markers [m] = Scan.ofTypes markers types := by
  simp [scan, Scan.ofTypes, Module.failure?, Module.staticClasses, h]

/-- The scan of a module whose types cannot be told. -/
theorem scan_singleton_of_error {m : Module} {cause : Failure} (h : m.types = .error cause) :
    scan markers [m] = ⟨[], [⟨m.name, cause⟩], []⟩ := by
  simp [scan, Module.failure?, Module.staticClasses, h]

namespace Scan

/-- **One module**: it is reported, or its types are gone through. -/
theorem readModule_eq (s : Scan) (m : Module) :
    readModule markers s m = s.append (scan markers [m]) := by
  rw [readModule]
  cases htypes : m.types with
  | error cause => rw [scan_singleton_of_error htypes]; simp [append]
  | ok types => rw [scan_singleton_of_ok htypes]; exact foldl_readClass types s

theorem foldl_readModule (modules : List Module) (s : Scan) :
    modules.foldl (readModule markers) s = s.append (scan markers modules) := by
  induction modules generalizing s with
  | nil => simp [append, scan]
  | cons m modules ih =>
      rw [List.foldl_cons, ih, readModule_eq, append_assoc, ← scan_append, List.singleton_append]

/-- **The loops come to the scan.** -/
theorem run_eq (modules : List Module) : run markers modules = scan markers modules := by
  rw [run, foldl_readModule]
  simp [append]

end Scan

/-! ### What a module contributes -/

/-- A list that is filtered and changed at once is related to the list that is only filtered. -/
theorem forall₂_filterMap {α β : Type} {R : α → β → Prop} {p : α → Prop} [DecidablePred p]
    {f : α → Option β} (hsome : ∀ a, (f a).isSome ↔ p a) (hR : ∀ a b, f a = some b → R a b)
    (l : List α) : List.Forall₂ R (l.filter p) (l.filterMap f) := by
  induction l with
  | nil => exact .nil
  | cons a l ih =>
      cases h : f a with
      | none =>
          have hnot : ¬ p a := fun hp => by simpa [h] using (hsome a).mpr hp
          rw [List.filterMap_cons_none h, List.filter_cons_of_neg (by simpa using hnot)]
          exact ih
      | some b =>
          have hp : p a := (hsome a).mp (by simp [h])
          rw [List.filterMap_cons_some h, List.filter_cons_of_pos (by simpa using hp)]
          exact .cons (hR a b h) ih

namespace TypeDefinition

/-- Whether a type is a static class, told from its attributes. -/
def IsStaticClass (t : TypeDefinition) : Prop :=
  t.attributes.isAbstract = true ∧ t.attributes.isSealed = true ∧ t.attributes.isInterface = false

instance (t : TypeDefinition) : Decidable t.IsStaticClass :=
  inferInstanceAs (Decidable (_ ∧ _))

theorem isStatic_iff {t : TypeDefinition} : t.isStatic = true ↔ t.IsStaticClass := by
  rw [isStatic, TypeAttributes.isStaticClass, IsStaticClass]
  simp [and_assoc]

theorem filter_isStatic (types : List TypeDefinition) :
    types.filter (·.isStatic) = types.filter (·.IsStaticClass) :=
  List.filter_congr fun _ _ => by rw [Bool.eq_iff_iff, decide_eq_true_iff, isStatic_iff]

/-- The methods of the static classes among some types, each with its class, in order. -/
def staticMethods (types : List TypeDefinition) : List (TypeDefinition × MethodDefinition) :=
  (types.filter (·.IsStaticClass)).flatMap fun t => t.methods.map (t, ·)

end TypeDefinition

namespace AliasMarkers

open TypeDefinition (IsStaticClass staticMethods filter_isStatic)

/-- Whether a type has an entry in the catalog. -/
def HasEntry (markers : AliasMarkers) (t : TypeDefinition) : Prop :=
  t.IsStaticClass ∧ ∃ m ∈ t.methods, markers.IsAlias m

instance (t : TypeDefinition) : Decidable (markers.HasEntry t) :=
  inferInstanceAs (Decidable (_ ∧ ∃ m ∈ t.methods, markers.IsAlias m))

/-- The entry `c` is of the type `t`: it lists exactly the methods that are aliases, in order, and
there is one. -/
structure EntryOf (markers : AliasMarkers) (t : TypeDefinition) (c : ContainerAliases) : Prop where
  ns_eq : c.ns = t.ns
  name_eq : c.name = t.name
  aliases : List.Forall₂ markers.AliasOf (t.methods.filter (markers.IsAlias ·)) c.aliases
  aliases_ne_nil : c.aliases ≠ []

/-- What a module contributes to a scan. If its types cannot be told, that is one report and nothing
else. If they can, it is one entry for every static class with an alias, in order, and one report on
every method of a static class that is refused, in order. -/
inductive Contributes (markers : AliasMarkers) (m : Module) : Scan → Prop
  | failed {cause : Failure} (untold : m.types = .error cause) :
      Contributes markers m ⟨[], [⟨m.name, cause⟩], []⟩
  | told {types : List TypeDefinition} {catalog : List ContainerAliases}
      {skipped : List SkippedMember} (told : m.types = .ok types)
      (entries : List.Forall₂ markers.EntryOf (types.filter (markers.HasEntry ·)) catalog)
      (reports : List.Forall₂ (fun (t, method) s => markers.ReportOf t.name method s)
        ((staticMethods types).filter fun (_, method) => markers.IsRefused method) skipped) :
      Contributes markers m ⟨catalog, [], skipped⟩

variable {t : TypeDefinition}

/-- The aliases of a class are its methods with a marker. -/
theorem aliasOf_filterMap (methods : List MethodDefinition) :
    List.Forall₂ markers.AliasOf (methods.filter (markers.IsAlias ·))
      (methods.filterMap markers.alias?) :=
  forall₂_filterMap (fun _ => isSome_alias?_iff) (fun _ _ => aliasOf_of_alias?) methods

/-- A class has an entry exactly if it has an alias. -/
theorem isSome_container?_iff :
    (markers.container? t).isSome ↔ ∃ m ∈ t.methods, markers.IsAlias m := by
  have hnil : t.methods.filterMap markers.alias? = [] ↔ ∀ m ∈ t.methods, ¬ markers.IsAlias m := by
    simp only [List.filterMap_eq_nil_iff, ← isSome_alias?_iff, Option.not_isSome_iff_eq_none]
  unfold container?
  split
  · rename_i haliases
    simpa using hnil.mp haliases
  · rename_i haliases
    simpa using mt hnil.mpr haliases

theorem entryOf_of_container? {c : ContainerAliases} (h : markers.container? t = some c) :
    markers.EntryOf t c := by
  unfold container? at h
  split at h
  · cases h
  · rename_i haliases
    cases h
    exact ⟨rfl, rfl, aliasOf_filterMap t.methods, haliases⟩

/-- The entries of a module are its static classes with an alias. -/
theorem entryOf_catalog (types : List TypeDefinition) :
    List.Forall₂ markers.EntryOf (types.filter (markers.HasEntry ·))
      (Scan.ofTypes markers types).catalog := by
  have hfilter : types.filter (markers.HasEntry ·) =
      (types.filter (IsStaticClass ·)).filter fun t => ∃ m ∈ t.methods, markers.IsAlias m := by
    rw [List.filter_filter]
    exact List.filter_congr fun t _ => by
      rw [Bool.eq_iff_iff, Bool.and_eq_true, decide_eq_true_iff, decide_eq_true_iff,
        decide_eq_true_iff, HasEntry, and_comm]
  rw [hfilter, Scan.ofTypes, filter_isStatic]
  exact forall₂_filterMap (fun _ => isSome_container?_iff) (fun _ _ => entryOf_of_container?) _

/-- The reports of a module are on the methods of its static classes that are refused. -/
theorem reportOf_skippedMembers (types : List TypeDefinition) :
    List.Forall₂ (fun (t, method) s => markers.ReportOf t.name method s)
      ((staticMethods types).filter fun (_, method) => markers.IsRefused method)
      (Scan.ofTypes markers types).skippedMembers := by
  have hskipped : (Scan.ofTypes markers types).skippedMembers =
      (staticMethods types).filterMap fun (t, method) => markers.skipped? t.name method := by
    rw [Scan.ofTypes, filter_isStatic, staticMethods, List.filterMap_flatMap]
    simp only [List.filterMap_map, Function.comp_def]
  rw [hskipped]
  exact forall₂_filterMap (fun _ => isSome_skipped?_iff) (fun _ _ => reportOf_of_skipped?) _

/-- **What one module contributes to a scan.** -/
theorem contributes_scan (m : Module) : markers.Contributes m (scan markers [m]) := by
  cases htypes : m.types with
  | error cause =>
      rw [scan_singleton_of_error htypes]
      exact .failed htypes
  | ok types =>
      rw [scan_singleton_of_ok htypes]
      exact .told htypes (entryOf_catalog types) (reportOf_skippedMembers types)

end AliasMarkers

/-! ### What the scan follows -/

open AliasMarkers

/-- **A scan finds exactly what the markers say.** The loops come to it, lists of modules are
scanned one behind the other, and every module contributes the aliases and the reports that its
attributes call for. Whether a method is taken for an alias, reported or neither does not depend on
the order of its attributes. -/
theorem scan_follows_markers (markers : AliasMarkers) :
    (∀ modules, Scan.run markers modules = scan markers modules) ∧
      (∀ modules modules',
        scan markers (modules ++ modules') =
          (scan markers modules).append (scan markers modules')) ∧
      (∀ m, markers.Contributes m (scan markers [m])) ∧
      ∀ m m' : MethodDefinition, m.attributes.Perm m'.attributes →
        (markers.alias? m).isSome = (markers.alias? m').isSome ∧
          ∀ container,
            (markers.skipped? container m).isSome = (markers.skipped? container m').isSome := by
  refine ⟨Scan.run_eq, scan_append, contributes_scan, fun m m' h => ⟨?_, fun container => ?_⟩⟩
  · rw [Bool.eq_iff_iff, isSome_alias?_iff, isSome_alias?_iff]
    exact isAlias_congr h
  · rw [Bool.eq_iff_iff, isSome_skipped?_iff, isSome_skipped?_iff]
    exact isRefused_congr h

/-- A method without parameters. -/
def markedMethod (attributes : List AttributeType) : MethodDefinition :=
  ⟨"Member", attributes, [], .void, []⟩

/-- A method with a marker that is not supported and one that is remains an alias if the two
change places, also where every attribute of the namespace is of the family. -/
theorem scan_follows_markers_mixed :
    [(⟨"N", "Field"⟩ : AttributeType), ⟨"N", "Method"⟩].Perm [⟨"N", "Method"⟩, ⟨"N", "Field"⟩] ∧
      (AliasMarkers.alias? ⟨"N", "Method", "Method", ""⟩
        (markedMethod [⟨"N", "Field"⟩, ⟨"N", "Method"⟩])).isSome = true ∧
      (AliasMarkers.skipped? ⟨"N", "Method", "Method", ""⟩ "Class"
        (markedMethod [⟨"N", "Field"⟩, ⟨"N", "Method"⟩])).isSome = false := by
  have hperm : [(⟨"N", "Field"⟩ : AttributeType), ⟨"N", "Method"⟩].Perm
      [⟨"N", "Method"⟩, ⟨"N", "Field"⟩] := .swap _ _ _
  obtain ⟨halias, hskipped⟩ := (scan_follows_markers ⟨"N", "Method", "Method", ""⟩).2.2.2
    (markedMethod [⟨"N", "Field"⟩, ⟨"N", "Method"⟩])
    (markedMethod [⟨"N", "Method"⟩, ⟨"N", "Field"⟩]) hperm
  exact ⟨hperm, halias.trans (by decide), (hskipped "Class").trans (by decide)⟩

end AliasStubs
