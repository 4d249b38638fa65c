import AliasStubs.Proofs.Types.Parts
import AliasStubs.Stubs.SourceFile

/-!
# The namespaces that stubs use and the namespaces they need

A declaration compiles only if the namespace of every type that it spells by name is in use. Two
independent walks over the types meet here: one spells them, the other collects namespaces. What a
type needs is told from its spelling alone, `needed?`, for every type that occurs anywhere in a
declared one.

The walks agree but for one kind of type. A primitive type without a keyword can be given as a
primitive type or by its name; it is spelled alike both times, but only the first is collected. So
the namespaces that are used are those that are needed, except that `System` may be missing.

## Main definitions

* `TypeDescriptor.needed?` : the namespace that the spelling of a type needs for itself.
* `TypeDescriptor.isNamedPrimitive` : the exception.
* `SpelledIn`, `NeededBy` : what the declarations of a catalog spell and need.

## Main results

* `TypeDescriptor.mem_collectNamespaces_iff` : what is collected from a type.
* `referencedNamespaces_iff` : **when the namespaces in use are those that are needed**.
-/

namespace AliasStubs

/-! ### What a type needs -/

/-- The namespace that the spelling of a primitive type needs: `System` if it is the name of the
class. -/
def Primitive.needed? (p : Primitive) : Option String :=
  if p.keyword = p.systemName then some "System" else none

/-- A keyword needs nothing. -/
theorem Primitive.needed?_eq (p : Primitive) :
    p.needed? = if p.isKeyword then none else some "System" := by
  cases p <;> decide

namespace TypeDescriptor

/-- The namespace that the spelling of a type needs for the type itself, apart from its parts. -/
def needed? : TypeDescriptor → Option String
  | primitive p => p.needed?
  | named n =>
    match n.primitive? with
    | some p => p.needed?
    | none => n.neededNamespace?
  | generic definition _ => definition.neededNamespace?
  | array _ _ | pointer _ | byRef _ _ | parameter _ => none

/-- Whether a type is a primitive type without a keyword that is given by its name. -/
def isNamedPrimitive : TypeDescriptor → Bool
  | named n => n.primitive?.any (!·.isKeyword)
  | _ => false

/-! ### What is collected from a type -/

/-- A namespace is collected from a type if a type that occurs in it needs it, unless this is a
primitive type given by its name. -/
def Collects (t : TypeDescriptor) (ns : String) : Prop :=
  ∃ u, Occurs u t ∧ u.needed? = some ns ∧ u.isNamedPrimitive = false

variable {ns : String}

/-- A namespace is collected for the type itself or from one of its parts. -/
theorem collects_iff {t : TypeDescriptor} :
    t.Collects ns ↔
      (t.needed? = some ns ∧ t.isNamedPrimitive = false) ∨ ∃ s ∈ t.parts, s.Collects ns := by
  constructor
  · rintro ⟨u, hu, h⟩
    cases hu with
    | self => exact .inl h
    | part mem hu => exact .inr ⟨_, mem, u, hu, h⟩
  · rintro (h | ⟨s, mem, u, hu, h⟩)
    · exact ⟨t, .self, h⟩
    · exact ⟨u, .part mem hu, h⟩

/-- From a name, its namespace is collected if it names no primitive type. -/
theorem collects_named_iff {n : TypeName} :
    (named n).Collects ns ↔ n.primitive? = none ∧ n.neededNamespace? = some ns := by
  rw [collects_iff, needed?, isNamedPrimitive]
  cases n.primitive? with
  | none => simp [parts]
  | some p =>
      simp only [Option.any_some, Primitive.needed?_eq]
      cases p.isKeyword <;> simp [parts]

mutual

/-- **What is collected from a type**, and what had been found before. -/
theorem mem_collectNamespaces_iff : (t : TypeDescriptor) → (found : List String) →
    (ns ∈ t.collectNamespaces found ↔ ns ∈ found ∨ t.Collects ns)
  | primitive p, found => by
      rw [collectNamespaces, collects_iff, needed?, Primitive.needed?_eq]
      cases p.isKeyword <;> simp [parts, isNamedPrimitive, eq_comm, or_comm]
  | named n, found => by
      rw [collectNamespaces, collects_named_iff]
      cases n.primitive? <;> simp [or_comm]
  | generic d as, found => by
      rw [collectNamespaces, collects_iff, mem_collectAllNamespaces_iff as]
      simp [parts, needed?, isNamedPrimitive, or_assoc, or_left_comm]
  | array t _, found => by
      rw [collectNamespaces, collects_iff, mem_collectNamespaces_iff t]
      simp [parts, needed?]
  | pointer t, found => by
      rw [collectNamespaces, collects_iff, mem_collectNamespaces_iff t]
      simp [parts, needed?]
  | byRef t _, found => by
      rw [collectNamespaces, collects_iff, mem_collectNamespaces_iff t]
      simp [parts, needed?]
  | parameter _, found => by
      rw [collectNamespaces, collects_iff]
      simp [parts, needed?]

/-- What is collected from several types, and what had been found before. -/
theorem mem_collectAllNamespaces_iff : (ts : List TypeDescriptor) → (found : List String) →
    (ns ∈ collectAllNamespaces ts found ↔ ns ∈ found ∨ ∃ t ∈ ts, t.Collects ns)
  | [], found => by simp [collectAllNamespaces]
  | t :: ts, found => by
      rw [collectAllNamespaces, mem_collectAllNamespaces_iff ts, mem_collectNamespaces_iff t]
      simp [or_assoc]

end

/-- A primitive type given by its name needs `System` all the same. -/
theorem needed?_of_isNamedPrimitive {t : TypeDescriptor} (h : t.isNamedPrimitive = true) :
    t.needed? = some "System" := by
  cases t with
  | named n =>
      rw [isNamedPrimitive] at h
      rw [needed?]
      cases hn : n.primitive? with
      | none =>
          rw [hn] at h
          cases h
      | some p =>
          rw [hn, Option.any_some, Bool.not_eq_true'] at h
          simp only [Primitive.needed?_eq, h]
          rfl
  | primitive | generic | array | pointer | byRef | parameter => cases h

/-- A primitive type is spelled alike whether it is given by its name or not. -/
theorem spelling_ofName (n : TypeName) : (ofName n).spelling = (named n).spelling := by
  cases h : n.primitive? with
  | none => simp only [ofName, h]
  | some p => simp only [ofName, spelling, h]

/-- The name of a type and the type of the name use the same namespaces, except for a primitive type
without a keyword. -/
theorem namespaces_ofName_iff (n : TypeName) :
    (∀ ns, ns ∈ (named n).namespaces ↔ ns ∈ (ofName n).namespaces) ↔
      (named n).isNamedPrimitive = false := by
  cases h : n.primitive? with
  | none => simp [ofName, isNamedPrimitive, h]
  | some p =>
      simp only [ofName, namespaces, collectNamespaces, isNamedPrimitive, h, Option.any_some]
      cases p.isKeyword <;> simp

example : (named (.topLevel "System" "IntPtr")).spelling = "IntPtr" ∧
    (named (.topLevel "System" "IntPtr")).namespaces = [] ∧
    (primitive .intPtr).namespaces = ["System"] := by
  decide

end TypeDescriptor

/-! ### What a catalog needs -/

/-- A type is declared in a catalog if it is the return type of an alias or the type of a parameter
that a script gives to one that is called. -/
def DeclaredIn (catalog : List ContainerAliases) (t : TypeDescriptor) : Prop :=
  ∃ c ∈ catalog, ∃ a ∈ c.aliases,
    t = a.returnType ∨ a.kind = .callable ∧ ∃ p ∈ a.visibleParameters, t = p.type

/-- A type is spelled in the declarations of a catalog. -/
def SpelledIn (catalog : List ContainerAliases) (u : TypeDescriptor) : Prop :=
  ∃ t, DeclaredIn catalog t ∧ u.Occurs t

/-- A namespace is needed by the declarations of a catalog. -/
def NeededBy (catalog : List ContainerAliases) (ns : String) : Prop :=
  ∃ u, SpelledIn catalog u ∧ u.needed? = some ns

theorem mem_declaredTypes_iff {a : AliasMember} {t : TypeDescriptor} :
    t ∈ a.declaredTypes ↔
      t = a.returnType ∨ a.kind = .callable ∧ ∃ p ∈ a.visibleParameters, t = p.type := by
  rw [AliasMember.declaredTypes]
  cases a.kind <;> simp [eq_comm]

/-- What is in use is what the declared types are collected for. -/
theorem mem_referencedNamespaces_iff {catalog : List ContainerAliases} {ns : String} :
    ns ∈ referencedNamespaces catalog ↔
      ∃ u, SpelledIn catalog u ∧ u.needed? = some ns ∧ u.isNamedPrimitive = false := by
  have hdeclared (t : TypeDescriptor) :
      (t ∈ catalog.flatMap fun c => c.aliases.flatMap (·.declaredTypes)) ↔
        DeclaredIn catalog t := by
    simp only [List.mem_flatMap, mem_declaredTypes_iff, DeclaredIn]
  rw [referencedNamespaces, mem_sortedDistinct, TypeDescriptor.mem_collectAllNamespaces_iff]
  constructor
  · rintro (h | ⟨t, ht, u, hu, h⟩)
    · cases h
    · exact ⟨u, ⟨t, (hdeclared t).mp ht, hu⟩, h⟩
  · rintro ⟨u, ⟨t, ht, hu⟩, h⟩
    exact .inr ⟨t, (hdeclared t).mpr ht, u, hu, h⟩

/-- A needed namespace is in use, or it is `System` and needed by a primitive type given by its
name. -/
theorem neededBy_iff {catalog : List ContainerAliases} {ns : String} :
    NeededBy catalog ns ↔ ns ∈ referencedNamespaces catalog ∨
      ns = "System" ∧ ∃ u, SpelledIn catalog u ∧ u.isNamedPrimitive = true := by
  rw [mem_referencedNamespaces_iff]
  constructor
  · rintro ⟨u, hu, h⟩
    cases hprimitive : u.isNamedPrimitive with
    | false => exact .inl ⟨u, hu, h, hprimitive⟩
    | true =>
        have hsystem := TypeDescriptor.needed?_of_isNamedPrimitive hprimitive
        exact .inr ⟨Option.some.inj (h.symm.trans hsystem), u, hu, hprimitive⟩
  · rintro (⟨u, hu, h, -⟩ | ⟨rfl, u, hu, hprimitive⟩)
    · exact ⟨u, hu, h⟩
    · exact ⟨u, hu, TypeDescriptor.needed?_of_isNamedPrimitive hprimitive⟩

/-! ### The lines of the file -/

/-- Whether a line uses a namespace. -/
def isUsing (line : String) : Bool :=
  "using ".toList.isPrefixOf line.toList

/-- A line that starts with another character uses nothing. -/
theorem isUsing_of_head {line : String} {c : Char} (h : line.toList.head? = some c)
    (hc : c ≠ 'u') : isUsing line = false := by
  obtain ⟨cs, hline⟩ := List.head?_eq_some_iff.mp h
  have hbeq : ('u' == c) = false := beq_false_of_ne hc.symm
  rw [isUsing, hline]
  change (('u' == c) && _) = false
  rw [hbeq, Bool.false_and]

/-- A text starts with the first character of its front. -/
theorem head?_append {s : String} {c : Char} (h : s.toList.head? = some c) (t : String) :
    (s ++ t).toList.head? = some c := by
  rw [String.toList_append, List.head?_append, h, Option.some_or]

/-- A line that is written for a namespace uses it. -/
theorem isUsing_directive (ns : String) : isUsing ("using " ++ ns ++ ";") = true := by
  rw [isUsing, String.append_assoc, String.toList_append, List.isPrefixOf_iff_prefix]
  exact List.prefix_append _ _

/-- Of the lines that use namespaces, only the empty one behind them uses none. -/
theorem filter_isUsing_usingLines (namespaces : List String) :
    (usingLines namespaces).filter isUsing = namespaces.map fun ns => "using " ++ ns ++ ";" := by
  rw [usingLines]
  split
  · rename_i h
    rw [h]
    rfl
  · have hempty : [""].filter isUsing = [] := by decide
    rw [List.filter_append, hempty, List.append_nil, List.filter_eq_self]
    intro line hline
    obtain ⟨ns, -, rfl⟩ := List.mem_map.mp hline
    exact isUsing_directive ns

/-- Lines that use nothing are left out. -/
theorem filter_isUsing_eq_nil {lines : List String} (h : ∀ line ∈ lines, isUsing line = false) :
    lines.filter isUsing = [] := by
  rw [List.filter_eq_nil_iff]
  intro line hline
  rw [h line hline]
  exact Bool.false_ne_true

/-- The lines that open the class use nothing. -/
theorem isUsing_of_mem_opening {f : SourceFile} {line : String} (h : line ∈ f.opening) :
    isUsing line = false := by
  simp only [SourceFile.opening, List.mem_cons, List.not_mem_nil, or_false] at h
  rcases h with rfl | rfl | rfl | rfl
  · have hns : "namespace ".toList.head? = some 'n' := by decide
    exact isUsing_of_head (head?_append hns _) (by decide)
  · decide
  · have hclass : "\tpublic abstract partial class ".toList.head? = some '\t' := by decide
    exact isUsing_of_head (head?_append (head?_append (head?_append hclass _) _) _) (by decide)
  · decide

/-- No line of a container uses a namespace. -/
theorem isUsing_of_mem_lines {c : ContainerAliases} {line : String} (h : line ∈ c.lines) :
    isUsing line = false := by
  rw [ContainerAliases.lines, List.mem_append, List.mem_append, List.mem_singleton,
    List.mem_singleton, List.mem_map] at h
  rcases h with (rfl | ⟨a, -, rfl⟩) | rfl
  · have hregion : "#region ".toList.head? = some '#' := by decide
    exact isUsing_of_head (head?_append hregion _) (by decide)
  · have hmember : "\t\tprotected ".toList.head? = some '\t' := by decide
    have htype := head?_append (head?_append hmember a.returnType.spelling) " "
    have hname := head?_append htype a.name
    exact isUsing_of_head (head?_append (head?_append hname _) _) (by decide)
  · decide

/-- **The lines of a file that use namespaces** are those for the namespaces of its catalog, if they
are asked for. -/
theorem SourceFile.filter_isUsing_lines (f : SourceFile) (catalog : List ContainerAliases) :
    (f.lines catalog).filter isUsing =
      if f.emitUsings then (referencedNamespaces catalog).map fun ns => "using " ++ ns ++ ";"
      else [] := by
  have hbanner : (banner ++ [""]).filter isUsing = [] := by decide +kernel
  have hopening : f.opening.filter isUsing = [] :=
    filter_isUsing_eq_nil fun _ => isUsing_of_mem_opening
  have hmembers : (catalog.flatMap (·.lines)).filter isUsing = [] := by
    refine filter_isUsing_eq_nil fun line hline => ?_
    obtain ⟨c, -, hline⟩ := List.mem_flatMap.mp hline
    exact isUsing_of_mem_lines hline
  have hclosing : closing.filter isUsing = [] := by decide
  rw [lines, List.filter_append, List.filter_append, List.filter_append, List.filter_append,
    hbanner, hopening, hmembers, hclosing]
  simp only [List.nil_append, List.append_nil]
  split
  · rw [filter_isUsing_usingLines]
  · rfl

/-- **When the namespaces in use are those that are needed.** They ascend strictly, and the file has
a line for each and no other. What is needed is in use, except that `System` may be missing where a
primitive type without a keyword is given by its name; so use and need agree exactly if such types
occur only where `System` is in use anyway. For a single type, the name and the type of the name are
spelled alike, and use the same namespaces exactly if the name is not the name of such a type. -/
theorem referencedNamespaces_iff (catalog : List ContainerAliases) :
    (referencedNamespaces catalog).Pairwise (· < ·) ∧
      (∀ f : SourceFile, (f.lines catalog).filter isUsing =
        if f.emitUsings then (referencedNamespaces catalog).map fun ns => "using " ++ ns ++ ";"
        else []) ∧
      (∀ ns, NeededBy catalog ns ↔ ns ∈ referencedNamespaces catalog ∨
        ns = "System" ∧ ∃ u, SpelledIn catalog u ∧ u.isNamedPrimitive = true) ∧
      ((∀ ns, ns ∈ referencedNamespaces catalog ↔ NeededBy catalog ns) ↔
        ((∃ u, SpelledIn catalog u ∧ u.isNamedPrimitive = true) →
          "System" ∈ referencedNamespaces catalog)) ∧
      ∀ n, (TypeDescriptor.ofName n).spelling = (TypeDescriptor.named n).spelling ∧
        ((∀ ns, ns ∈ (TypeDescriptor.named n).namespaces ↔
            ns ∈ (TypeDescriptor.ofName n).namespaces) ↔
          (TypeDescriptor.named n).isNamedPrimitive = false) := by
  refine ⟨pairwise_sortedDistinct _, fun f => f.filter_isUsing_lines catalog,
    fun ns => neededBy_iff, ?_,
    fun n => ⟨TypeDescriptor.spelling_ofName n, TypeDescriptor.namespaces_ofName_iff n⟩⟩
  constructor
  · intro hagree hprimitive
    exact (hagree "System").mpr (neededBy_iff.mpr (.inr ⟨rfl, hprimitive⟩))
  · intro hsystem ns
    rw [neededBy_iff]
    constructor
    · exact .inl
    · rintro (h | ⟨rfl, hprimitive⟩)
      · exact h
      · exact hsystem hprimitive

end AliasStubs
