import AliasStubs.Proofs.Stubs.Arguments
import AliasStubs.Proofs.Stubs.Usings
import Mathlib.Data.List.Forall2

/-!
# The lines of the source file

The source file is written line by line, and each line ends in a line feed. The lines are found
again where the text is split at its line feeds, but only if they have none of their own. The lines
are spelled from texts that are copied from elsewhere: names from the metadata and the configuration
of the file. Nothing that is put between these texts is a line feed, and nothing that is copied is
looked at for one.

So the layout of the file is the intended one exactly if no text that is copied has a line feed. A
text that has one adds lines in the place of the line that it stands in. The lines before and behind
that place stay as they are.

## Main definitions

* `HasLineFeed` : a text has a line feed.
* `TypeDescriptor.Copies` : the texts that the spelling of a type copies.
* `SourceFile.Copies` : the texts that a source file copies.

## Main results

* `TypeDescriptor.hasLineFeed_spelling_iff`, `AliasMember.hasLineFeed_declaration_iff` : where a
  line feed in a type and in a declaration comes from.
* `splitOn_lines` : a text of lines is split into what each line is split into.
* `SourceFile.splitOn_text_iff` : **when the text of a source file has the intended lines**.
-/

namespace AliasStubs

/-! ### Line feeds -/

/-- A text has a line feed. -/
def HasLineFeed (s : String) : Prop :=
  '\n' ∈ s.toList

instance (s : String) : Decidable (HasLineFeed s) :=
  inferInstanceAs (Decidable (_ ∈ _))

@[simp] theorem hasLineFeed_append {s t : String} :
    HasLineFeed (s ++ t) ↔ HasLineFeed s ∨ HasLineFeed t := by
  rw [HasLineFeed, String.toList_append, List.mem_append, HasLineFeed, HasLineFeed]

/-- The pieces of a text have no line feed. -/
theorem not_mem_of_mem_splitOn {cs piece : List Char} {sep : Char} (h : piece ∈ cs.splitOn sep) :
    sep ∉ piece := by
  induction cs generalizing piece with
  | nil =>
      obtain rfl : piece = [] := by simpa using h
      exact List.not_mem_nil
  | cons c cs ih =>
      rw [List.splitOn_cons_eq_if_modifyHead] at h
      split at h
      · rcases List.mem_cons.mp h with rfl | h
        · exact List.not_mem_nil
        · exact ih h
      · rename_i hne
        cases hpieces : cs.splitOn sep with
        | nil => exact absurd hpieces (List.splitOn_ne_nil _ _)
        | cons first rest =>
            rw [hpieces, List.modifyHead_cons] at h
            rcases List.mem_cons.mp h with rfl | h
            · have hfirst := ih (hpieces ▸ List.mem_cons_self ..)
              exact List.not_mem_cons_of_ne_of_not_mem (fun heq => hne (by simp [heq])) hfirst
            · exact ih (hpieces ▸ List.mem_cons_of_mem _ h)

/-- **A text of lines is split into what each line is split into.** Behind the line feed of the last
line stands the empty rest. -/
theorem splitOn_lines (lines : List String) :
    (String.join (lines.map (· ++ "\n"))).toList.splitOn '\n' =
      lines.flatMap (·.toList.splitOn '\n') ++ [[]] := by
  induction lines with
  | nil => rfl
  | cons line lines ih =>
      have hcons : (String.join ((line :: lines).map (· ++ "\n"))).toList =
          line.toList ++ '\n' :: (String.join (lines.map (· ++ "\n"))).toList := by
        simp [String.toList_join, String.toList_append]
      rw [hcons, List.splitOn_append_cons_self, ih, List.flatMap_cons, List.append_assoc]

/-- Splitting finds the lines again exactly if none of them has a line feed. -/
theorem flatMap_splitOn_eq_iff (lines : List String) :
    lines.flatMap (·.toList.splitOn '\n') = lines.map String.toList ↔
      ∀ line ∈ lines, ¬ HasLineFeed line := by
  constructor
  · intro h line hline hfeed
    have hpiece : line.toList ∈ lines.flatMap (·.toList.splitOn '\n') :=
      h ▸ List.mem_map_of_mem hline
    obtain ⟨_, -, hmem⟩ := List.mem_flatMap.mp hpiece
    exact not_mem_of_mem_splitOn hmem hfeed
  · intro h
    have hpieces : lines.map (·.toList.splitOn '\n') = lines.map fun line => [line.toList] :=
      List.map_congr_left fun line hline => List.splitOn_eq_singleton (h line hline)
    rw [List.flatMap_def, hpieces, ← List.flatMap_def, List.map_eq_flatMap]

/-! ### Texts that are put together -/

/-- Texts that are joined have a line feed exactly if one of them has, where the separator has
none. -/
theorem hasLineFeed_intercalate {sep : String} (hsep : ¬ HasLineFeed sep) (parts : List String) :
    HasLineFeed (sep.intercalate parts) ↔ ∃ part ∈ parts, HasLineFeed part := by
  rw [HasLineFeed, String.toList_intercalate]
  induction parts with
  | nil => simp
  | cons part parts ih =>
      cases parts with
      | nil => simp [HasLineFeed]
      | cons next parts =>
          rw [List.map_cons, List.map_cons, List.intercalate_cons_cons, List.mem_append,
            List.mem_append, ← List.map_cons, ih, List.exists_mem_cons_iff (a := part)]
          exact or_congr_left (or_iff_left hsep)

/-- A suffix has no line feed, so a name has one exactly if its simple name has. -/
theorem NameSegment.hasLineFeed_simpleName_iff (s : NameSegment) :
    HasLineFeed s.simpleName ↔ HasLineFeed s.name := by
  unfold simpleName
  split
  · rename_i before after hparts
    split
    · rename_i hdigits
      obtain ⟨hname, -⟩ := splitAtLast?_eq_some_iff.mp hparts
      have hafter : '\n' ∉ after := fun hmem =>
        absurd (List.all_eq_true.mp hdigits _ hmem) (by decide)
      rw [HasLineFeed, HasLineFeed, String.toList_ofList, hname, List.mem_append, List.mem_cons]
      exact (or_iff_left (not_or.mpr ⟨by decide, hafter⟩)).symm
    · exact Iff.rfl
  · exact Iff.rfl

/-- No keyword has a line feed. -/
theorem Primitive.not_hasLineFeed_keyword (p : Primitive) : ¬ HasLineFeed p.keyword := by
  cases p <;> decide

theorem RefKind.not_hasLineFeed_keyword (k : RefKind) : ¬ HasLineFeed k.keyword := by
  cases k <;> decide

theorem not_hasLineFeed_rankSpecifier (rank : Nat) : ¬ HasLineFeed (rankSpecifier rank) := by
  have hcommas : ¬ HasLineFeed (String.ofList (List.replicate (rank - 1) ',')) := by
    rw [HasLineFeed, String.toList_ofList, List.mem_replicate]
    exact fun h => absurd h.2 (by decide)
  have hopen : ¬ HasLineFeed "[" := by decide
  have hclose : ¬ HasLineFeed "]" := by decide
  simp [rankSpecifier, hcommas, hopen, hclose]

/-- A name with its arguments has a line feed exactly if the name or an argument has. -/
theorem hasLineFeed_segmentSpelling (s : NameSegment) (args : List String) :
    HasLineFeed (segmentSpelling s args) ↔
      HasLineFeed s.name ∨ ∃ arg ∈ args, HasLineFeed arg := by
  have hopen : ¬ HasLineFeed "<" := by decide
  have hcomma : ¬ HasLineFeed ", " := by decide
  have hclose : ¬ HasLineFeed ">" := by decide
  unfold segmentSpelling
  split
  · rename_i hnil
    simp [hnil, s.hasLineFeed_simpleName_iff]
  · simp [s.hasLineFeed_simpleName_iff, hasLineFeed_intercalate hcomma, hopen, hclose]

/-- **Where a line feed in a name comes from**: a name of its chain or an argument. -/
theorem TypeName.hasLineFeed_spelling_iff (n : TypeName) (args : List String) :
    HasLineFeed (n.spelling args) ↔
      (∃ s ∈ n.segments, HasLineFeed s.name) ∨ ∃ arg ∈ args, HasLineFeed arg := by
  have hsegments : n.segments ≠ [] := List.cons_ne_nil _ _
  rw [TypeName.spelling, hasLineFeed_intercalate (by decide),
    ← exists_mem_distribute_iff args hsegments]
  simp only [List.mem_map, exists_exists_and_eq_and, hasLineFeed_segmentSpelling]

/-! ### Types -/

namespace TypeDescriptor

/-- The texts that the spelling of a type copies for the type itself, apart from its parts. A
primitive type is spelled without its name. -/
def ownTexts : TypeDescriptor → List String
  | named n =>
    match n.primitive? with
    | some _ => []
    | none => n.segments.map (·.name)
  | generic definition _ => definition.segments.map (·.name)
  | parameter name => [name]
  | primitive _ | array _ _ | pointer _ | byRef _ _ => []

/-- The spelling of a type copies a text if it does so for a type that occurs in it. -/
def Copies (t : TypeDescriptor) (s : String) : Prop :=
  ∃ u, Occurs u t ∧ s ∈ u.ownTexts

/-- A text is copied for the type itself or for one of its parts. -/
theorem exists_copies_iff {t : TypeDescriptor} {p : String → Prop} :
    (∃ s, t.Copies s ∧ p s) ↔
      (∃ s ∈ t.ownTexts, p s) ∨ ∃ part ∈ t.parts, ∃ s, part.Copies s ∧ p s := by
  constructor
  · rintro ⟨s, ⟨u, hu, hs⟩, hp⟩
    cases hu with
    | self => exact .inl ⟨s, hs, hp⟩
    | part mem hu => exact .inr ⟨_, mem, s, ⟨u, hu, hs⟩, hp⟩
  · rintro (⟨s, hs, hp⟩ | ⟨part, mem, s, ⟨u, hu, hs⟩, hp⟩)
    · exact ⟨s, ⟨t, .self, hs⟩, hp⟩
    · exact ⟨s, ⟨u, .part mem hu, hs⟩, hp⟩

mutual

/-- **Where a line feed in a type comes from**: a text that its spelling copies. -/
theorem hasLineFeed_spelling_iff : (t : TypeDescriptor) →
    (HasLineFeed t.spelling ↔ ∃ s, t.Copies s ∧ HasLineFeed s)
  | primitive p => by
      rw [spelling, exists_copies_iff]
      simp [ownTexts, parts, p.not_hasLineFeed_keyword]
  | named n => by
      rw [spelling, exists_copies_iff, ownTexts]
      cases n.primitive? with
      | none => simp [parts, n.hasLineFeed_spelling_iff]
      | some p => simp [parts, p.not_hasLineFeed_keyword]
  | generic d as => by
      rw [spelling, exists_copies_iff, spellings_eq, d.hasLineFeed_spelling_iff]
      simp [parts, ownTexts, exists_hasLineFeed_spelling_iff as]
  | array t rank => by
      rw [spelling, exists_copies_iff, hasLineFeed_append, hasLineFeed_spelling_iff t]
      simp [parts, ownTexts, not_hasLineFeed_rankSpecifier]
  | pointer t => by
      have hstar : ¬ HasLineFeed "*" := by decide
      rw [spelling, exists_copies_iff, hasLineFeed_append, hasLineFeed_spelling_iff t]
      simp [parts, ownTexts, hstar]
  | byRef t kind => by
      have hblank : ¬ HasLineFeed " " := by decide
      rw [spelling, exists_copies_iff, hasLineFeed_append, hasLineFeed_append,
        hasLineFeed_spelling_iff t]
      simp [parts, ownTexts, kind.not_hasLineFeed_keyword, hblank]
  | parameter name => by
      rw [spelling, exists_copies_iff]
      simp [parts, ownTexts]

/-- So it is for the types of a list. -/
theorem exists_hasLineFeed_spelling_iff : (ts : List TypeDescriptor) →
    ((∃ t ∈ ts, HasLineFeed t.spelling) ↔ ∃ t ∈ ts, ∃ s, t.Copies s ∧ HasLineFeed s)
  | [] => by simp
  | t :: ts => by
      rw [List.exists_mem_cons_iff, List.exists_mem_cons_iff, hasLineFeed_spelling_iff t,
        exists_hasLineFeed_spelling_iff ts]

end

end TypeDescriptor

/-! ### Declarations -/

/-- An identifier has a line feed exactly if the name has. -/
theorem hasLineFeed_identifier_iff (name : String) :
    HasLineFeed (identifier name) ↔ HasLineFeed name := by
  have hat : ¬ HasLineFeed "@" := by decide
  unfold identifier
  split
  · rw [hasLineFeed_append, or_iff_right hat]
  · exact Iff.rfl

/-- A parameter has a line feed exactly if its type or its name has. -/
theorem Parameter.hasLineFeed_spelling_iff (p : Parameter) :
    HasLineFeed p.spelling ↔ HasLineFeed p.type.spelling ∨ HasLineFeed p.name := by
  have hblank : ¬ HasLineFeed " " := by decide
  rw [Parameter.spelling, hasLineFeed_append, hasLineFeed_append, or_iff_left hblank,
    hasLineFeed_identifier_iff]

/-- Generic parameters have a line feed exactly if one of their names has. -/
theorem hasLineFeed_genericMarker_iff (names : List String) :
    HasLineFeed (genericMarker names) ↔ ∃ name ∈ names, HasLineFeed name := by
  have hopen : ¬ HasLineFeed "<" := by decide
  have hcomma : ¬ HasLineFeed ", " := by decide
  have hclose : ¬ HasLineFeed ">" := by decide
  unfold genericMarker
  split
  · rename_i hnil
    simp [hnil, HasLineFeed]
  · simp [hasLineFeed_intercalate hcomma, hopen, hclose]

namespace AliasMember

variable (a : AliasMember)

/-- The texts that the declaration of an alias copies. -/
inductive Copies : String → Prop
  | name : Copies a.name
  | type {t : TypeDescriptor} {s : String} (mem : t ∈ a.declaredTypes) (copies : t.Copies s) :
      Copies s
  | generic {s : String} (called : a.kind = .callable) (mem : s ∈ a.genericParameters) : Copies s
  | parameter {p : Parameter} (called : a.kind = .callable) (mem : p ∈ a.visibleParameters) :
      Copies p.name

variable {a}

/-- A text is copied for the name, for a type, or for the parameters if the alias is called. -/
theorem exists_copies_iff {p : String → Prop} :
    (∃ s, a.Copies s ∧ p s) ↔
      p a.name ∨ (∃ t ∈ a.declaredTypes, ∃ s, t.Copies s ∧ p s) ∨
        (a.kind = .callable ∧
          ((∃ s ∈ a.genericParameters, p s) ∨ ∃ q ∈ a.visibleParameters, p q.name)) := by
  constructor
  · rintro ⟨s, hs, hp⟩
    cases hs with
    | name => exact .inl hp
    | type mem copies => exact .inr (.inl ⟨_, mem, _, copies, hp⟩)
    | generic called mem => exact .inr (.inr ⟨called, .inl ⟨_, mem, hp⟩⟩)
    | parameter called mem => exact .inr (.inr ⟨called, .inr ⟨_, mem, hp⟩⟩)
  · rintro (hp | ⟨t, mem, s, copies, hp⟩ | ⟨called, ⟨s, mem, hp⟩ | ⟨q, mem, hp⟩⟩)
    · exact ⟨_, .name, hp⟩
    · exact ⟨s, .type mem copies, hp⟩
    · exact ⟨s, .generic called mem, hp⟩
    · exact ⟨_, .parameter called mem, hp⟩

/-- A line feed behind the name of an alias that is called comes from a generic parameter or from a
parameter. -/
theorem hasLineFeed_parameterPart_iff (called : a.kind = .callable) :
    HasLineFeed a.parameterPart ↔
      (∃ s ∈ a.genericParameters, HasLineFeed s) ∨
        ∃ p ∈ a.visibleParameters, HasLineFeed p.type.spelling ∨ HasLineFeed p.name := by
  have hopen : ¬ HasLineFeed "(" := by decide
  have hcomma : ¬ HasLineFeed ", " := by decide
  have hclose : ¬ HasLineFeed ")" := by decide
  rw [parameterPart, called]
  simp [parameterList, hasLineFeed_genericMarker_iff, hasLineFeed_intercalate hcomma,
    Parameter.hasLineFeed_spelling_iff, hopen, hclose]

/-- **Where a line feed in a declaration comes from**: a text that it copies. -/
theorem hasLineFeed_declaration_iff :
    HasLineFeed a.declaration ↔ ∃ s, a.Copies s ∧ HasLineFeed s := by
  have hhead : ¬ HasLineFeed "\t\tprotected " := by decide
  have hblank : ¬ HasLineFeed " " := by decide
  have hbody : ¬ HasLineFeed memberBody := by decide
  have hdeclaration : HasLineFeed a.declaration ↔
      HasLineFeed a.returnType.spelling ∨ HasLineFeed a.name ∨ HasLineFeed a.parameterPart := by
    change HasLineFeed ("\t\tprotected " ++ a.returnType.spelling ++ " " ++ a.name ++
      a.parameterPart ++ memberBody) ↔ _
    simp only [hasLineFeed_append, hhead, hblank, hbody, false_or, or_false, or_assoc]
  rw [hdeclaration, exists_copies_iff]
  simp only [← TypeDescriptor.hasLineFeed_spelling_iff]
  cases hkind : a.kind with
  | callable =>
      rw [hasLineFeed_parameterPart_iff hkind, declaredTypes, hkind]
      simp only [List.exists_mem_cons_iff, List.mem_map, exists_exists_and_eq_and, and_or_left,
        exists_or, true_and, or_assoc, or_left_comm]
  | property =>
      have hempty : ¬ HasLineFeed a.parameterPart := by
        rw [parameterPart, hkind]
        exact List.not_mem_nil
      simp [declaredTypes, hkind, hempty, or_comm]

end AliasMember

/-! ### Files -/

/-- A region has a line feed inside a line exactly if the name of the container or a declaration
has. -/
theorem ContainerAliases.exists_hasLineFeed_lines_iff (c : ContainerAliases) :
    (∃ line ∈ c.lines, HasLineFeed line) ↔
      HasLineFeed c.name ∨ ∃ a ∈ c.aliases, HasLineFeed a.declaration := by
  have hhead : ¬ HasLineFeed "#region " := by decide
  have hend : ¬ HasLineFeed "#endregion" := by decide
  simp [ContainerAliases.lines, hhead, hend]

/-- The lines that use namespaces have a line feed exactly if a namespace has. -/
theorem exists_hasLineFeed_usingLines_iff (namespaces : List String) :
    (∃ line ∈ usingLines namespaces, HasLineFeed line) ↔ ∃ ns ∈ namespaces, HasLineFeed ns := by
  have husing : ¬ HasLineFeed "using " := by decide
  have hend : ¬ HasLineFeed ";" := by decide
  have hempty : ¬ HasLineFeed "" := by decide
  unfold usingLines
  split
  · rename_i hnil
    simp [hnil]
  · simp [or_and_right, exists_or, husing, hend, hempty]

namespace SourceFile

variable (f : SourceFile) (catalog : List ContainerAliases)

/-- The texts that a source file copies: those of its configuration, the names of the containers,
the namespaces in use and the texts of all declarations. -/
inductive Copies : String → Prop
  | ns : Copies f.ns
  | className : Copies f.className
  | baseType : Copies f.baseType
  | using {ns : String} (emitted : f.emitUsings = true) (mem : ns ∈ referencedNamespaces catalog) :
      Copies ns
  | container {c : ContainerAliases} (mem : c ∈ catalog) : Copies c.name
  | declaration {c : ContainerAliases} {a : AliasMember} {s : String} (mem : c ∈ catalog)
      (declared : a ∈ c.aliases) (copies : a.Copies s) : Copies s

variable {f catalog}

/-- A text is copied for one of the parts of the file. -/
theorem exists_copies_iff {p : String → Prop} :
    (∃ s, f.Copies catalog s ∧ p s) ↔
      (p f.ns ∨ p f.className ∨ p f.baseType) ∨
        (f.emitUsings = true ∧ ∃ ns ∈ referencedNamespaces catalog, p ns) ∨
        ∃ c ∈ catalog, p c.name ∨ ∃ a ∈ c.aliases, ∃ s, a.Copies s ∧ p s := by
  constructor
  · rintro ⟨s, hs, hp⟩
    cases hs with
    | ns => exact .inl (.inl hp)
    | className => exact .inl (.inr (.inl hp))
    | baseType => exact .inl (.inr (.inr hp))
    | «using» emitted mem => exact .inr (.inl ⟨emitted, _, mem, hp⟩)
    | container mem => exact .inr (.inr ⟨_, mem, .inl hp⟩)
    | declaration mem declared copies =>
        exact .inr (.inr ⟨_, mem, .inr ⟨_, declared, s, copies, hp⟩⟩)
  · rintro ((hp | hp | hp) | ⟨emitted, ns, mem, hp⟩ | ⟨c, mem, hp | ⟨a, declared, s, copies, hp⟩⟩)
    · exact ⟨_, .ns, hp⟩
    · exact ⟨_, .className, hp⟩
    · exact ⟨_, .baseType, hp⟩
    · exact ⟨ns, .using emitted mem, hp⟩
    · exact ⟨_, .container mem, hp⟩
    · exact ⟨s, .declaration mem declared copies, hp⟩

/-- The lines before the members have a line feed exactly if the configuration has. -/
theorem exists_hasLineFeed_opening_iff :
    (∃ line ∈ f.opening, HasLineFeed line) ↔
      HasLineFeed f.ns ∨ HasLineFeed f.className ∨ HasLineFeed f.baseType := by
  have hns : ¬ HasLineFeed "namespace " := by decide
  have hclass : ¬ HasLineFeed "\tpublic abstract partial class " := by decide
  have hcolon : ¬ HasLineFeed " : " := by decide
  have hbrace : ¬ HasLineFeed "\x7b" := by decide
  have hbrace' : ¬ HasLineFeed "\t\x7b" := by decide
  simp [opening, or_and_right, exists_or, hns, hclass, hcolon, hbrace, hbrace']

/-- **Where a line feed in a line of the file comes from**: a text that the file copies. -/
theorem exists_hasLineFeed_lines_iff :
    (∃ line ∈ f.lines catalog, HasLineFeed line) ↔
      ∃ s, f.Copies catalog s ∧ HasLineFeed s := by
  have hbanner : ¬ ∃ line ∈ banner, HasLineFeed line := by decide +kernel
  have hempty : ¬ ∃ line ∈ [""], HasLineFeed line := by decide
  have hclosing : ¬ ∃ line ∈ closing, HasLineFeed line := by decide
  have husings : (∃ line ∈ if f.emitUsings then usingLines (referencedNamespaces catalog) else [],
      HasLineFeed line) ↔
        f.emitUsings = true ∧ ∃ ns ∈ referencedNamespaces catalog, HasLineFeed ns := by
    split
    · simp [exists_hasLineFeed_usingLines_iff, *]
    · simp [*]
  have hregions : (∃ line ∈ catalog.flatMap (·.lines), HasLineFeed line) ↔
      ∃ c ∈ catalog, HasLineFeed c.name ∨ ∃ a ∈ c.aliases, HasLineFeed a.declaration := by
    simp only [← ContainerAliases.exists_hasLineFeed_lines_iff, List.mem_flatMap]
    exact ⟨fun ⟨line, ⟨c, hc, hline⟩, h⟩ => ⟨c, hc, line, hline, h⟩,
      fun ⟨c, hc, line, hline, h⟩ => ⟨line, ⟨c, hc, hline⟩, h⟩⟩
  rw [lines, exists_copies_iff]
  simp only [List.mem_append, or_and_right, exists_or, hbanner, hempty, hclosing, husings, hregions,
    exists_hasLineFeed_opening_iff, AliasMember.hasLineFeed_declaration_iff, false_or, or_false]
  exact or_assoc.trans or_left_comm

/-- The lines that a source file is meant to have: the banner, the namespaces in use if there are
any, four lines that open the class, a region for each container with one line for each alias, and
two lines that close it. -/
def intendedLines (f : SourceFile) (catalog : List ContainerAliases) : List String :=
  banner ++ [""] ++
    (if f.emitUsings = true ∧ referencedNamespaces catalog ≠ [] then
      (referencedNamespaces catalog).map (fun ns => "using " ++ ns ++ ";") ++ [""]
    else []) ++
    ["namespace " ++ f.ns,
      "\x7b",
      "\tpublic abstract partial class " ++ f.className ++ " : " ++ f.baseType,
      "\t\x7b"] ++
    catalog.flatMap (fun c =>
      ["#region " ++ c.name] ++ c.aliases.map (·.declaration) ++ ["#endregion"]) ++
    ["\t\x7d", "\x7d"]

theorem intendedLines_eq (f : SourceFile) (catalog : List ContainerAliases) :
    f.intendedLines catalog = f.lines catalog := by
  have husings : (if f.emitUsings = true ∧ referencedNamespaces catalog ≠ [] then
      (referencedNamespaces catalog).map (fun ns => "using " ++ ns ++ ";") ++ [""] else []) =
        if f.emitUsings = true then usingLines (referencedNamespaces catalog) else [] := by
    rw [ite_and, usingLines]
    split
    · rw [ite_not]
    · rfl
  rw [intendedLines, husings]
  rfl

/-- **When the text of a source file has the intended lines**: exactly if no text that it copies has
a line feed. A text that has one is copied as it is, and adds lines in the place of its own line
only. -/
theorem splitOn_text_iff (f : SourceFile) (catalog : List ContainerAliases) :
    (f.text catalog).toList.splitOn '\n' =
        (f.intendedLines catalog).flatMap (·.toList.splitOn '\n') ++ [[]] ∧
      ((f.text catalog).toList.splitOn '\n' =
          (f.intendedLines catalog).map String.toList ++ [[]] ↔
        ∀ s, f.Copies catalog s → ¬ HasLineFeed s) := by
  have hsplit : (f.text catalog).toList.splitOn '\n' =
      (f.intendedLines catalog).flatMap (·.toList.splitOn '\n') ++ [[]] := by
    rw [intendedLines_eq]
    exact splitOn_lines _
  refine ⟨hsplit, ?_⟩
  have hcopied : (∀ line ∈ f.intendedLines catalog, ¬ HasLineFeed line) ↔
      ∀ s, f.Copies catalog s → ¬ HasLineFeed s := by
    rw [intendedLines_eq, ← not_iff_not]
    push Not
    exact exists_hasLineFeed_lines_iff
  rw [hsplit, List.append_left_inj, flatMap_splitOn_eq_iff, hcopied]

/-- A property whose name has a line feed. -/
def brokenMember : AliasMember :=
  ⟨"F\nG", .property, [], .primitive .boolean, []⟩

/-- The declaration of such a property takes two lines. -/
theorem splitOn_text_iff_broken :
    ((⟨"Ns", "Cls", "Base", false⟩ : SourceFile).text
        [⟨"N", "A", [brokenMember]⟩]).toList.splitOn '\n' ≠
      ((⟨"Ns", "Cls", "Base", false⟩ : SourceFile).intendedLines
        [⟨"N", "A", [brokenMember]⟩]).map String.toList ++ [[]] := by
  intro h
  have hfeed : HasLineFeed "F\nG" := by decide
  refine (splitOn_text_iff _ _).2.mp h "F\nG" ?_ hfeed
  exact .declaration (List.mem_singleton_self _) (List.mem_singleton_self _) AliasMember.Copies.name

end SourceFile

end AliasStubs
