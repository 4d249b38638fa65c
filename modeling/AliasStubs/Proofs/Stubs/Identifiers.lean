import AliasStubs.Proofs.Stubs.Arguments
import AliasStubs.Proofs.Stubs.Usings
import Mathlib.Data.List.Basic

/-!
# Identifiers in declarations

A declaration is put together from fixed pieces, keywords and signs, and from identifiers: the name
of the alias, those of its generic parameters and parameters, and the simple names in types that are
spelled by their names. A name that C# reserves is an identifier only behind the sign `@`.

The names of parameters are written behind the sign where they need it. All others are written as
they are, so that a declaration holds a bare keyword in the place of an identifier exactly if one of
these names is reserved.

## Main definitions

* `NameRole`, `Piece` : the pieces of a declaration and what its identifiers are the names of.
* `Piece.written` and `Piece.escaped` : how a piece is written, and how C# wants it.
* `AliasMember.pieces` : the pieces of a declaration.
* `AliasMember.Names` : the names that a declaration has identifiers for.

## Main results

* `AliasMember.writtenText_pieces` : a declaration is the text of its pieces.
* `AliasMember.ident_mem_pieces_iff` : its identifiers are for the names of the alias.
* `AliasMember.declaration_identifiers` : **when a declaration has only identifiers that are no
  keywords**.
-/

namespace AliasStubs

/-! ### Pieces -/

/-- What an identifier is the name of. -/
inductive NameRole
  | member
  | typeParameter
  | parameter
  | type
  deriving DecidableEq

/-- A piece of a declaration. -/
inductive Piece
  /-- Text that is the same for all names. -/
  | fixed (text : String)
  /-- The place of an identifier, with the name that metadata give it. -/
  | ident (role : NameRole) (name : String)
  deriving DecidableEq

/-- How a piece is written. -/
def Piece.written : Piece → String
  | fixed text => text
  | ident .parameter name => identifier name
  | ident _ name => name

/-- How a piece is written if no identifier may be a keyword. -/
def Piece.escaped : Piece → String
  | fixed text => text
  | ident _ name => identifier name

/-- The text of several pieces. -/
def writtenText (pieces : List Piece) : String :=
  String.join (pieces.map Piece.written)

/-- The text of several pieces if no identifier may be a keyword. -/
def escapedText (pieces : List Piece) : String :=
  String.join (pieces.map Piece.escaped)

/-- The pieces of several parts, with a fixed text between them. -/
def separated (sep : String) (parts : List (List Piece)) : List Piece :=
  [Piece.fixed sep].intercalate parts

@[simp] theorem writtenText_nil : writtenText [] = "" := by
  rw [writtenText, List.map_nil, String.join_nil]

@[simp] theorem writtenText_cons (piece : Piece) (pieces : List Piece) :
    writtenText (piece :: pieces) = piece.written ++ writtenText pieces := by
  rw [writtenText, List.map_cons, String.join_cons, writtenText]

@[simp] theorem writtenText_append (pieces pieces' : List Piece) :
    writtenText (pieces ++ pieces') = writtenText pieces ++ writtenText pieces' := by
  rw [writtenText, List.map_append, String.join_append, writtenText, writtenText]

@[simp] theorem Piece.written_fixed (text : String) : (fixed text).written = text := rfl

/-- The text between parts is written between their texts. -/
theorem writtenText_separated (sep : String) (parts : List (List Piece)) :
    writtenText (separated sep parts) = sep.intercalate (parts.map writtenText) := by
  rw [separated]
  induction parts with
  | nil => rfl
  | cons part parts ih =>
      cases parts with
      | nil => simp
      | cons next parts =>
          rw [List.intercalate_cons_cons, writtenText_append, writtenText_append, ih]
          simp

/-- The identifiers of parts with a fixed text between them are those of the parts. -/
theorem ident_mem_separated_iff {role : NameRole} {name sep : String} {parts : List (List Piece)} :
    .ident role name ∈ separated sep parts ↔ ∃ part ∈ parts, .ident role name ∈ part := by
  rw [separated]
  induction parts with
  | nil => simp
  | cons part parts ih =>
      cases parts with
      | nil => simp
      | cons next parts =>
          rw [List.intercalate_cons_cons, List.mem_append, List.mem_append, ih]
          simp

/-! ### Bare keywords -/

/-- A piece is a **bare keyword** if it is an identifier and written as a reserved word. -/
def Piece.Bare (piece : Piece) : Prop :=
  ∃ role name, piece = .ident role name ∧ piece.written ∈ reservedWords

/-- An identifier is a bare keyword exactly if its name is reserved, unless it is the name of a
parameter. -/
theorem Piece.bare_ident_iff {role : NameRole} {name : String} :
    (ident role name).Bare ↔ role ≠ .parameter ∧ name ∈ reservedWords := by
  have hwritten : (ident role name).Bare ↔ (ident role name).written ∈ reservedWords :=
    ⟨fun ⟨_, _, _, h⟩ => h, fun h => ⟨role, name, rfl, h⟩⟩
  have hnever : identifier name ∉ reservedWords := identifier_not_mem_reservedWords name
  rw [hwritten]
  cases role <;> simp [written, hnever]

/-- C# wants a bare keyword behind the sign, and all other pieces as they are written. -/
theorem Piece.escaped_cases (piece : Piece) :
    ¬ piece.Bare ∧ piece.escaped = piece.written ∨
      piece.Bare ∧ piece.escaped = "@" ++ piece.written := by
  cases piece with
  | fixed text => exact .inl ⟨nofun, rfl⟩
  | ident role name =>
      rw [bare_ident_iff]
      by_cases hname : name ∈ reservedWords
      · cases role <;> simp [written, escaped, identifier, hname]
      · cases role <;> simp [written, escaped, identifier, hname]

theorem escapedText_cons (piece : Piece) (pieces : List Piece) :
    escapedText (piece :: pieces) = piece.escaped ++ escapedText pieces := by
  rw [escapedText, List.map_cons, String.join_cons, escapedText]

/-- No text is longer than C# wants it. -/
theorem length_writtenText_le (pieces : List Piece) :
    (writtenText pieces).length ≤ (escapedText pieces).length := by
  induction pieces with
  | nil => exact Nat.le_refl _
  | cons piece pieces ih =>
      rw [writtenText_cons, escapedText_cons, String.length_append, String.length_append]
      rcases piece.escaped_cases with ⟨-, h⟩ | ⟨-, h⟩
      · rw [h]
        omega
      · rw [h, String.length_append]
        omega

/-- A text with a bare keyword is shorter than C# wants it. -/
theorem length_writtenText_lt {pieces : List Piece} (h : ∃ piece ∈ pieces, piece.Bare) :
    (writtenText pieces).length < (escapedText pieces).length := by
  induction pieces with
  | nil => obtain ⟨_, hmem, -⟩ := h; cases hmem
  | cons piece pieces ih =>
      have hle := length_writtenText_le pieces
      have hsign : "@".length = 1 := rfl
      rw [writtenText_cons, escapedText_cons, String.length_append, String.length_append]
      rw [List.exists_mem_cons_iff] at h
      rcases piece.escaped_cases with ⟨hbare, heq⟩ | ⟨-, heq⟩
      · have hlt := ih (h.resolve_left hbare)
        rw [heq]
        omega
      · rw [heq, String.length_append]
        omega

/-- **A text is as C# wants it exactly if it has no bare keyword.** -/
theorem writtenText_eq_escapedText_iff {pieces : List Piece} :
    writtenText pieces = escapedText pieces ↔ ∀ piece ∈ pieces, ¬ piece.Bare := by
  constructor
  · intro h piece hmem hbare
    have hlt := length_writtenText_lt ⟨piece, hmem, hbare⟩
    rw [h] at hlt
    exact Nat.lt_irrefl _ hlt
  · intro h
    refine congrArg String.join (List.map_congr_left fun piece hmem => ?_)
    rcases piece.escaped_cases with ⟨-, heq⟩ | ⟨hbare, -⟩
    · exact heq.symm
    · exact absurd hbare (h piece hmem)

/-! ### Types -/

/-- The pieces of a simple name with the arguments it takes. -/
def segmentPieces (s : NameSegment) : (own : List (List Piece)) → List Piece
  | [] => [.ident .type s.simpleName]
  | own => .ident .type s.simpleName :: .fixed "<" :: (separated ", " own ++ [.fixed ">"])

/-- The pieces of a name with those of its arguments. -/
def TypeName.pieces (n : TypeName) (args : List (List Piece)) : List Piece :=
  separated "." ((distribute n.segments args).map fun e => segmentPieces e.1 e.2)

theorem writtenText_segmentPieces (s : NameSegment) (own : List (List Piece)) :
    writtenText (segmentPieces s own) = segmentSpelling s (own.map writtenText) := by
  have hname : (Piece.ident .type s.simpleName).written = s.simpleName := rfl
  cases own with
  | nil => simp [segmentPieces, segmentSpelling, hname]
  | cons => simp [segmentPieces, segmentSpelling, writtenText_separated, hname, String.append_assoc]

/-- A name is the text of its pieces. -/
theorem TypeName.writtenText_pieces (n : TypeName) (args : List (List Piece)) :
    writtenText (n.pieces args) = n.spelling (args.map writtenText) := by
  rw [TypeName.pieces, writtenText_separated, TypeName.spelling, distribute_map, List.map_map,
    List.map_map]
  simp only [Function.comp_def, writtenText_segmentPieces]

theorem ident_mem_segmentPieces_iff {role : NameRole} {name : String} {s : NameSegment}
    {own : List (List Piece)} :
    .ident role name ∈ segmentPieces s own ↔
      (role = .type ∧ name = s.simpleName) ∨ ∃ arg ∈ own, .ident role name ∈ arg := by
  cases own with
  | nil => simp [segmentPieces]
  | cons => simp [segmentPieces, ident_mem_separated_iff]

/-- The identifiers of a name are its simple names and those of its arguments. -/
theorem TypeName.ident_mem_pieces_iff {role : NameRole} {name : String} {n : TypeName}
    {args : List (List Piece)} :
    .ident role name ∈ n.pieces args ↔
      (∃ s ∈ n.segments, role = .type ∧ name = s.simpleName) ∨
        ∃ arg ∈ args, .ident role name ∈ arg := by
  have hsegments : n.segments ≠ [] := List.cons_ne_nil _ _
  rw [TypeName.pieces, ident_mem_separated_iff, ← exists_mem_distribute_iff args hsegments]
  simp only [List.mem_map, exists_exists_and_eq_and, ident_mem_segmentPieces_iff]

namespace TypeDescriptor

mutual

/-- The pieces of a type. -/
def pieces : TypeDescriptor → List Piece
  | primitive p => [.fixed p.keyword]
  | named n =>
    match n.primitive? with
    | some p => [.fixed p.keyword]
    | none => n.pieces []
  | generic definition arguments => definition.pieces (piecesOfEach arguments)
  | array element rank => element.pieces ++ [.fixed (rankSpecifier rank)]
  | pointer target => target.pieces ++ [.fixed "*"]
  | byRef target kind => .fixed kind.keyword :: .fixed " " :: target.pieces
  | parameter name => [.ident .typeParameter name]

/-- The pieces of several types. -/
def piecesOfEach : List TypeDescriptor → List (List Piece)
  | [] => []
  | t :: ts => t.pieces :: piecesOfEach ts

end

/-- The names that a type has identifiers for itself, apart from its parts. A primitive type has
none, however it is given. -/
def ownNames : TypeDescriptor → List (NameRole × String)
  | named n =>
    match n.primitive? with
    | some _ => []
    | none => n.segments.map fun s => (.type, s.simpleName)
  | generic definition _ => definition.segments.map fun s => (.type, s.simpleName)
  | parameter name => [(.typeParameter, name)]
  | primitive _ | array _ _ | pointer _ | byRef _ _ => []

mutual

/-- **A type is the text of its pieces.** -/
theorem writtenText_pieces : (t : TypeDescriptor) → writtenText t.pieces = t.spelling
  | primitive p => by simp [pieces, spelling]
  | named n => by
      rw [pieces, spelling]
      cases n.primitive? with
      | none => exact n.writtenText_pieces []
      | some p => simp
  | generic definition arguments => by
      rw [pieces, spelling, definition.writtenText_pieces, spellings_eq, List.reverse_nil,
        List.nil_append, map_writtenText_piecesOfEach arguments]
  | array element rank => by simp [pieces, spelling, writtenText_pieces element]
  | pointer target => by simp [pieces, spelling, writtenText_pieces target]
  | byRef target kind => by
      simp [pieces, spelling, writtenText_pieces target, String.append_assoc]
  | parameter name => by simp [pieces, spelling, Piece.written]

/-- So it is for the types of a list. -/
theorem map_writtenText_piecesOfEach : (ts : List TypeDescriptor) →
    (piecesOfEach ts).map writtenText = ts.map spelling
  | [] => rfl
  | t :: ts => by
      rw [piecesOfEach, List.map_cons, List.map_cons, writtenText_pieces t,
        map_writtenText_piecesOfEach ts]

end

/-- A type has an identifier for a name of its own or for one of its parts. -/
def Names (t : TypeDescriptor) (role : NameRole) (name : String) : Prop :=
  ∃ u, Occurs u t ∧ (role, name) ∈ u.ownNames

theorem names_iff {t : TypeDescriptor} {role : NameRole} {name : String} :
    t.Names role name ↔ (role, name) ∈ t.ownNames ∨ ∃ part ∈ t.parts, part.Names role name := by
  constructor
  · rintro ⟨u, hu, h⟩
    cases hu with
    | self => exact .inl h
    | part mem hu => exact .inr ⟨_, mem, u, hu, h⟩
  · rintro (h | ⟨part, mem, u, hu, h⟩)
    · exact ⟨t, .self, h⟩
    · exact ⟨u, .part mem hu, h⟩

mutual

/-- **The identifiers of a type** are for the names in it. -/
theorem ident_mem_pieces_iff {role : NameRole} {name : String} : (t : TypeDescriptor) →
    (.ident role name ∈ t.pieces ↔ t.Names role name)
  | primitive p => by
      rw [names_iff]
      simp [pieces, ownNames, parts]
  | named n => by
      rw [names_iff, pieces, ownNames]
      cases n.primitive? with
      | none => simp [n.ident_mem_pieces_iff, parts, eq_comm]
      | some p => simp [parts]
  | generic definition arguments => by
      rw [names_iff, pieces, definition.ident_mem_pieces_iff,
        exists_ident_mem_pieces_iff arguments]
      simp [ownNames, parts, eq_comm]
  | array element rank => by
      rw [names_iff]
      simp [pieces, ownNames, parts, ident_mem_pieces_iff element]
  | pointer target => by
      rw [names_iff]
      simp [pieces, ownNames, parts, ident_mem_pieces_iff target]
  | byRef target kind => by
      rw [names_iff]
      simp [pieces, ownNames, parts, ident_mem_pieces_iff target]
  | parameter name => by
      rw [names_iff]
      simp [pieces, ownNames, parts]

/-- So it is for the types of a list. -/
theorem exists_ident_mem_pieces_iff {role : NameRole} {name : String} :
    (ts : List TypeDescriptor) →
      ((∃ arg ∈ piecesOfEach ts, .ident role name ∈ arg) ↔ ∃ t ∈ ts, t.Names role name)
  | [] => by simp [piecesOfEach]
  | t :: ts => by
      rw [piecesOfEach, List.exists_mem_cons_iff, List.exists_mem_cons_iff, ident_mem_pieces_iff t,
        exists_ident_mem_pieces_iff ts]

end

end TypeDescriptor

/-! ### Declarations -/

/-- The pieces of a parameter. -/
def Parameter.pieces (p : Parameter) : List Piece :=
  p.type.pieces ++ [.fixed " ", .ident .parameter p.name]

/-- The pieces of the generic parameters behind a name. -/
def markerPieces : (names : List String) → List Piece
  | [] => []
  | names =>
    .fixed "<" :: (separated ", " (names.map fun name => [.ident .typeParameter name]) ++
      [.fixed ">"])

namespace AliasMember

/-- The pieces of what follows the name of an alias. -/
def parameterPieces (a : AliasMember) : List Piece :=
  match a.kind with
  | .callable =>
    markerPieces a.genericParameters ++ .fixed "(" ::
      (separated ", " (a.visibleParameters.map Parameter.pieces) ++ [.fixed ")"])
  | .property => []

/-- The pieces of the declaration of an alias. -/
def pieces (a : AliasMember) : List Piece :=
  .fixed "\t\tprotected " :: (a.returnType.pieces ++ .fixed " " :: .ident .member a.name ::
    (a.parameterPieces ++ [.fixed memberBody]))

/-- The names that the declaration of an alias has identifiers for. -/
inductive Names (a : AliasMember) : NameRole → String → Prop
  | member : Names a .member a.name
  | type {t : TypeDescriptor} {role : NameRole} {name : String} (mem : t ∈ a.declaredTypes)
      (names : t.Names role name) : Names a role name
  | typeParameter {name : String} (called : a.kind = .callable)
      (mem : name ∈ a.genericParameters) : Names a .typeParameter name
  | parameter {p : Parameter} (called : a.kind = .callable) (mem : p ∈ a.visibleParameters) :
      Names a .parameter p.name

end AliasMember

theorem Parameter.writtenText_pieces (p : Parameter) : writtenText p.pieces = p.spelling := by
  have hname : (Piece.ident .parameter p.name).written = identifier p.name := rfl
  simp [pieces, spelling, p.type.writtenText_pieces, hname, String.append_assoc]

theorem writtenText_markerPieces (names : List String) :
    writtenText (markerPieces names) = genericMarker names := by
  have hname (name : String) : (Piece.ident .typeParameter name).written = name := rfl
  cases names with
  | nil => rfl
  | cons => simp [markerPieces, genericMarker, writtenText_separated, hname, Function.comp_def,
      String.append_assoc]

namespace AliasMember

variable (a : AliasMember)

/-- What follows the name of an alias is the text of its pieces. -/
theorem writtenText_parameterPieces : writtenText a.parameterPieces = a.parameterPart := by
  rw [parameterPieces, parameterPart]
  cases a.kind with
  | callable =>
      simp [writtenText_markerPieces, writtenText_separated, parameterList,
        Parameter.writtenText_pieces, Function.comp_def, String.append_assoc]
  | property => rfl

/-- **A declaration is the text of its pieces.** -/
theorem writtenText_pieces : writtenText a.pieces = a.declaration := by
  have hname : (Piece.ident .member a.name).written = a.name := rfl
  change writtenText a.pieces =
    "\t\tprotected " ++ a.returnType.spelling ++ " " ++ a.name ++ a.parameterPart ++ memberBody
  simp [pieces, a.returnType.writtenText_pieces, hname, writtenText_parameterPieces,
    String.append_assoc]

variable {a}

/-- The identifiers of generic parameters are for their names. -/
theorem ident_mem_markerPieces_iff {role : NameRole} {name : String} {names : List String} :
    .ident role name ∈ markerPieces names ↔ role = .typeParameter ∧ name ∈ names := by
  have hfixed (text : String) : Piece.ident role name ≠ .fixed text := nofun
  rw [markerPieces.eq_def]
  split
  · simp
  · rw [List.mem_cons, List.mem_append, List.mem_singleton, ident_mem_separated_iff]
    simp only [hfixed, false_or, or_false, List.mem_map, exists_exists_and_eq_and,
      List.mem_singleton, Piece.ident.injEq]
    constructor
    · rintro ⟨_, hmem, hrole, rfl⟩
      exact ⟨hrole, hmem⟩
    · rintro ⟨hrole, hmem⟩
      exact ⟨name, hmem, hrole, rfl⟩

/-- The identifiers behind the name of an alias that is called. -/
theorem ident_mem_parameterPieces_iff {role : NameRole} {name : String} :
    .ident role name ∈ a.parameterPieces ↔ a.kind = .callable ∧
      ((role = .typeParameter ∧ name ∈ a.genericParameters) ∨
        ∃ p ∈ a.visibleParameters, p.type.Names role name ∨ role = .parameter ∧ name = p.name) := by
  rw [parameterPieces]
  cases a.kind with
  | callable =>
      simp [ident_mem_markerPieces_iff, ident_mem_separated_iff, Parameter.pieces,
        TypeDescriptor.ident_mem_pieces_iff]
  | property => simp

/-- **The identifiers of a declaration** are for the names of the alias. -/
theorem ident_mem_pieces_iff {role : NameRole} {name : String} :
    .ident role name ∈ a.pieces ↔ a.Names role name := by
  have hpieces : .ident role name ∈ a.pieces ↔
      a.returnType.Names role name ∨ (role = .member ∧ name = a.name) ∨
        .ident role name ∈ a.parameterPieces := by
    simp [pieces, TypeDescriptor.ident_mem_pieces_iff]
  rw [hpieces, ident_mem_parameterPieces_iff]
  constructor
  · rintro (h | ⟨rfl, rfl⟩ | ⟨hkind, ⟨rfl, hmem⟩ | ⟨p, hmem, h | ⟨rfl, rfl⟩⟩⟩)
    · exact .type (mem_declaredTypes_iff.mpr (.inl rfl)) h
    · exact .member
    · exact .typeParameter hkind hmem
    · exact .type (mem_declaredTypes_iff.mpr (.inr ⟨hkind, p, hmem, rfl⟩)) h
    · exact .parameter hkind hmem
  · intro h
    cases h with
    | member => exact .inr (.inl ⟨rfl, rfl⟩)
    | typeParameter hkind hmem => exact .inr (.inr ⟨hkind, .inl ⟨rfl, hmem⟩⟩)
    | parameter hkind hmem => exact .inr (.inr ⟨hkind, .inr ⟨_, hmem, .inr ⟨rfl, rfl⟩⟩⟩)
    | type hmem h =>
        rcases mem_declaredTypes_iff.mp hmem with rfl | ⟨hkind, p, hp, rfl⟩
        · exact .inl h
        · exact .inr (.inr ⟨hkind, .inr ⟨p, hp, .inl h⟩⟩)

/-- The bare keywords of a declaration are the reserved ones among the names of the alias, apart from
those of parameters. -/
theorem exists_bare_iff :
    (∃ piece ∈ a.pieces, piece.Bare) ↔
      ∃ role name, a.Names role name ∧ role ≠ .parameter ∧ name ∈ reservedWords := by
  constructor
  · rintro ⟨_, hmem, hbare⟩
    obtain ⟨role, name, rfl, -⟩ := id hbare
    exact ⟨role, name, ident_mem_pieces_iff.mp hmem, Piece.bare_ident_iff.mp hbare⟩
  · rintro ⟨role, name, hnames, h⟩
    exact ⟨.ident role name, ident_mem_pieces_iff.mpr hnames, Piece.bare_ident_iff.mpr h⟩

/-- **When a declaration has only identifiers that are no keywords.** It is the text of its pieces,
and has an identifier for each name of the alias: its own, those of its generic parameters and
parameters, and the simple names in its types that are not spelled as primitive types. The names of
parameters are never bare keywords. The line is the one that C# wants, with all reserved names
behind the sign and all others unchanged, exactly if none of the other names is reserved. -/
theorem declaration_identifiers (a : AliasMember) :
    a.declaration = writtenText a.pieces ∧
      (∀ role name, .ident role name ∈ a.pieces ↔ a.Names role name) ∧
      ((∃ piece ∈ a.pieces, piece.Bare) ↔
        ∃ role name, a.Names role name ∧ role ≠ .parameter ∧ name ∈ reservedWords) ∧
      (a.declaration = escapedText a.pieces ↔
        ∀ role name, a.Names role name → role ≠ .parameter → name ∉ reservedWords) := by
  refine ⟨a.writtenText_pieces.symm, fun role name => ident_mem_pieces_iff, exists_bare_iff, ?_⟩
  rw [← a.writtenText_pieces, writtenText_eq_escapedText_iff]
  constructor
  · intro h role name hnames hrole hreserved
    obtain ⟨piece, hmem, hbare⟩ := exists_bare_iff.mpr ⟨role, name, hnames, hrole, hreserved⟩
    exact h piece hmem hbare
  · intro h piece hmem hbare
    obtain ⟨role, name, hnames, hrole, hreserved⟩ := exists_bare_iff.mp ⟨piece, hmem, hbare⟩
    exact h role name hnames hrole hreserved

/-! ### Sample -/

/-- An alias with reserved names in all roles. -/
def reservedAlias : AliasMember where
  name := "event"
  kind := .callable
  parameters := [⟨"context", .named (.topLevel "Cake.Core" "ICakeContext")⟩,
    ⟨"object", .named (.topLevel "Cake" "lock")⟩]
  returnType := .named (.topLevel "Cake" "namespace")
  genericParameters := ["in"]

/-- **Bare keywords are written**: only the parameter is behind the sign. -/
theorem declaration_identifiers_reserved :
    reservedAlias.declaration =
        "\t\tprotected namespace event<in>(lock @object)" ++ memberBody ∧
      escapedText reservedAlias.pieces =
        "\t\tprotected @namespace @event<@in>(@lock @object)" ++ memberBody ∧
      ∃ piece ∈ reservedAlias.pieces, piece.Bare := by
  refine ⟨by decide +kernel, by decide +kernel, ?_⟩
  exact exists_bare_iff.mpr ⟨.member, "event", .member, by decide, by decide +kernel⟩

end AliasMember

end AliasStubs
