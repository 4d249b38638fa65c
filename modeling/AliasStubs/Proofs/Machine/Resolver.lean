import AliasStubs.Assembly.Resolution
import AliasStubs.Proofs.Machine.Nesting
import AliasStubs.Proofs.Machine.Opened

/-!
# Names and types on a machine

A machine counts the levels that it has followed upwards, and compares them with their limit before
every step. The steps are calls, and they nest with those of the parser of signatures, which is
entered wherever a type specification is met. So all of them are taken from the same number of
`calls` that are granted.

## Main definitions

* `Machine.Resolver` : the type definitions and the view they belong to, `Resolver.of` keeps an
  index of types.
* `Resolver.nameAt`, `Resolver.resolveAt` : names and types, from a level on.

## Main results

* `Resolver.nameAt_of` : **following the declaring types never faults**.
* `Resolver.resolveAt_of` : **resolving a signature never faults**, nor does it run out of calls if
  there are enough for a parser.
-/

namespace AliasStubs.Machine

/-! ### Tokens -/

/-- The token of a row. -/
def token (t : TableId) (row : Nat) : Checked Token := do
  let base ← Word.word32.shiftLeft t.number 24
  return ⟨base ||| row⟩

/-- The number of the table that a token names. -/
def tableOf (t : Token) : Checked Nat :=
  Word.word32.shiftRight t.value 24

@[simp] theorem token_eq (t : TableId) (row : Nat) : token t row = .ok (t.token row) := by
  have hbase : Word.word32.shiftLeft t.number 24 = .ok (t.number <<< 24) :=
    Word.shiftLeft_of_lt (by decide) (by cases t <;> decide)
  rw [token, hbase]
  rfl

@[simp] theorem tableOf_eq (t : Token) : tableOf t = .ok t.table :=
  Word.shiftRight_of_lt (by decide)

/-- The type definitions of metadata and which of them enclose which. -/
structure Resolver where
  /-- The metadata. -/
  view : View
  /-- The type definitions, in order. -/
  definitions : Array TypeDefRow
  /-- The rows of the enclosing classes, under the rows of the nested ones. -/
  enclosing : Grouping Nat Nat

namespace Resolver

/-! ### Names -/

/-- The index of the type definitions of metadata. -/
def build (v : View) (definitions : Array TypeDefRow) : Checked Resolver := do
  let nested ← v.tables.rows NestedClassRow
  return {
    view := v
    definitions
    enclosing := .ofList (nested.toList.map fun r => (r.nestedClass, r.enclosingClass)) }

/-- The type definition in a row. -/
def definition? (x : Resolver) (row : Nat) : Option TypeDefRow :=
  if row = 0 then none else x.definitions[row - 1]?

/-- The token of the type reference in which the type reference `r` is nested, if it is. -/
def scope? (r : TypeRefRow) : Checked (Option Token) :=
  if r.resolutionScope.table = .typeRef ∧ r.resolutionScope.row ≠ 0 then
    (token r.resolutionScope.table r.resolutionScope.row).map some
  else
    return none

/-- The name behind a token, when `depth` levels have been followed. -/
def nameAt (x : Resolver) : (calls depth : Nat) → Token → Checked TypeName
  | 0, _, _ => throw .exhausted
  | calls + 1, depth, t =>
    if maxLevels ≤ depth then
      throw (.failure (.recursionLimit maxLevels))
    else do
      let table ← tableOf t
      if table = TableId.typeDef.number then
        match x.definition? t.row with
        | none => throw (.failure (.malformed (.badTypeDef t)))
        | some d => do
          let name ← x.view.string d.typeName
          match x.enclosing.last? d.rid with
          | some outer => do
            let outer ← token .typeDef outer
            let declaring ← nameAt x calls (← Word.word64.add depth 1) outer
            return declaring.nest name
          | none => return .topLevel (← x.view.string d.typeNamespace) name
      else if table = TableId.typeRef.number then
        match ← x.view.tables.row? TypeRefRow t.row with
        | none => throw (.failure (.malformed (.badTypeRef t)))
        | some r => do
          let name ← x.view.string r.typeName
          match ← scope? r with
          | some outer => do
            let declaring ← nameAt x calls (← Word.word64.add depth 1) outer
            return declaring.nest name
          | none => return .topLevel (← x.view.string r.typeNamespace) name
      else
        throw (.failure (.malformed (.notAType t)))

/-- The name behind a token. -/
def name (x : Resolver) (calls : Nat) (t : Token) : Checked TypeName :=
  x.nameAt calls 0 t

/-! ### Signatures -/

/-- The signature of the type specification that a token names. -/
def specification (x : Resolver) (calls : Nat) (t : Token) : Checked TypeSig := do
  match ← x.view.tables.row? TypeSpecRow t.row with
  | none => throw (.failure (.malformed (.badTypeSpec t)))
  | some r => Parser.readType (← x.view.blob r.signature) calls

/-- The type of a signature, when `depth` levels have been followed. -/
def resolveAt (x : Resolver) (scope : GenericScope) :
    (calls depth : Nat) → TypeSig → Checked TypeDescriptor
  | 0, _, _ => throw .exhausted
  | calls + 1, depth, signature =>
    if maxLevels ≤ depth then
      throw (.failure (.recursionLimit maxLevels))
    else
      match signature with
      | .simple t => return .primitive t.primitive
      | .method _ => return .primitive .intPtr
      | .typeParam i => return .parameter (scope.typeParam i)
      | .methodParam i => return .parameter (scope.methodParam i)
      | .pointer target => do
        return .pointer (← resolveAt x scope calls (← Word.word64.add depth 1) target)
      | .byRef target => do
        return .byRef (← resolveAt x scope calls (← Word.word64.add depth 1) target) .ref
      | .vector element => do
        return .array (← resolveAt x scope calls (← Word.word64.add depth 1) element) 1
      | .array element rank => do
        return .array (← resolveAt x scope calls (← Word.word64.add depth 1) element) rank
      | .nominal _ t => do
        let inner ← Word.word64.add depth 1
        if (← tableOf t) = TableId.typeSpec.number then
          let specified ← x.specification calls t
          resolveAt x scope calls (← Word.word64.add inner 1) specified
        else
          return .ofName (← x.nameAt calls inner t)
      | .generic _ definition arguments => do
        let name ← x.nameAt calls (← Word.word64.add depth 1) definition
        let arguments ← arguments.mapM fun argument => do
          resolveAt x scope calls (← Word.word64.add depth 1) argument
        return .generic name arguments

/-- The type of a signature. -/
def resolve (x : Resolver) (calls : Nat) (scope : GenericScope) (signature : TypeSig) :
    Checked TypeDescriptor :=
  x.resolveAt scope calls 0 signature

/-- The class to which the constructor of an attribute belongs, given the parent of the reference
to the constructor. -/
def attributeClass (x : Resolver) (calls : Nat) (parent : Token) :
    Checked (Option TypeName) := do
  let table ← tableOf parent
  if table = TableId.typeDef.number ∨ table = TableId.typeRef.number then
    return some (← x.name calls parent)
  else if table = TableId.typeSpec.number then do
    match TypeIndex.classToken? (← x.specification calls parent) with
    | some t => return some (← x.name calls t)
    | none => return none
  else
    return none

/-! ### Both sides agree -/

/-- What a machine keeps of an index of types. -/
def of (x : TypeIndex) : Resolver where
  view := .of x.metadata
  definitions := x.definitions
  enclosing := x.enclosing

/-- **Indexing the type definitions never faults.** -/
theorem build_eq {m : Metadata} (hs : Sound m.tables) (definitions : Array TypeDefRow) :
    build (.of m) definitions = lift ((TypeIndex.build m definitions).map of) := by
  have hnested : (View.of m).tables.rows NestedClassRow = lift (m.tables.rows NestedClassRow) :=
    Tables.rows_of hs
  rw [build, hnested, TypeIndex.build]
  cases m.tables.rows NestedClassRow <;> rfl

theorem scope?_eq (r : TypeRefRow) : scope? r = .ok (TypeIndex.scope? r) := by
  rw [scope?, TypeIndex.scope?, token_eq]
  split <;> rfl

variable {x : TypeIndex}

/-- A name is put inside the one of its declaring type, or into its namespace. -/
theorem qualify_eq (v : Option (Except Failure TypeName)) (ns : Nat) (name : String) :
    lift (x.qualify v ns name) =
      match v with
      | some declaring => lift declaring >>= fun n => pure (n.nest name)
      | none => (View.of x.metadata).string ns >>= fun s => pure (.topLevel s name) := by
  cases v with
  | some declaring => cases declaring <;> rfl
  | none =>
      simp only [View.string_of, TypeIndex.qualify]
      cases x.metadata.string ns <;> rfl

/-- Where the levels are not used up, the next one is counted without a fault. -/
theorem level_left {depth : Nat} (h : ¬ maxLevels ≤ depth) :
    ∃ levels, maxLevels - depth = levels + 1 ∧ maxLevels - (depth + 1) = levels ∧
      Word.word64.add depth 1 = .ok (depth + 1) := by
  have hbound : maxLevels = 50 := rfl
  obtain ⟨levels, hlevels⟩ := Nat.exists_eq_add_of_lt (Nat.not_le.mp h)
  exact ⟨levels, by omega, by omega, Word.add_word64 (by omega)⟩

/-- **Following the declaring types never faults.** -/
theorem nameAt_of (hs : Sound x.metadata.tables) {calls depth : Nat} (t : Token)
    (hcalls : maxLevels - depth < calls) :
    (of x).nameAt calls depth t = lift (x.nameWithin (maxLevels - depth) t) := by
  induction calls generalizing depth t with
  | zero => exact absurd hcalls (Nat.not_lt_zero _)
  | succ calls ih =>
      rw [nameAt]
      by_cases hlimit : maxLevels ≤ depth
      · rw [if_pos hlimit, Nat.sub_eq_zero_of_le hlimit]
        rfl
      obtain ⟨levels, hlevels, hinner, hadd⟩ := level_left hlimit
      have hnext (t : Token) :
          (of x).nameAt calls (depth + 1) t = lift (x.nameWithin levels t) := by
        rw [ih t (by omega), hinner]
      rw [if_neg hlimit, tableOf_eq, ok_bind, hlevels, TypeIndex.nameWithin]
      split
      · change (match x.definition? t.row with
          | none => _
          | some d => _) = _
        cases x.definition? t.row with
        | none => rfl
        | some d =>
            refine bind_eq_lift_bind (View.string_of _ _) fun name _ => ?_
            rw [qualify_eq]
            change (match x.enclosing? d.rid with
              | some outer => _
              | none => _) = _
            cases x.enclosing? d.rid with
            | none => rfl
            | some outer => simp only [token_eq, hadd, ok_bind, hnext, Option.map_some]
      · split
        · have hrow : (of x).view.tables.row? TypeRefRow t.row =
              .ok (x.metadata.tables.row? TypeRefRow t.row) := Tables.row?_of hs t.row
          rw [hrow, ok_bind]
          cases x.metadata.tables.row? TypeRefRow t.row with
          | none => rfl
          | some r =>
              refine bind_eq_lift_bind (View.string_of _ _) fun name _ => ?_
              rw [qualify_eq, scope?_eq, ok_bind]
              cases TypeIndex.scope? r with
              | none => rfl
              | some outer => simp only [hadd, ok_bind, hnext, Option.map_some]
        · rfl

/-- A name is found within one call more than there are levels. -/
theorem name_of (hs : Sound x.metadata.tables) {calls : Nat} (hcalls : maxLevels < calls)
    (t : Token) : (of x).name calls t = lift (x.name t) :=
  nameAt_of hs t hcalls

section Resolving

variable {size : Nat} (hm : Held size x.metadata)
include hm

/-- **Reading a type specification never faults**, nor does it run out of calls that are enough for
all of the metadata. -/
theorem specification_of {calls : Nat} (hcalls : 3 * Signature.budget + 1 + size ≤ calls)
    (t : Token) : (of x).specification calls t = lift (x.specification t) := by
  have hrow : (of x).view.tables.row? TypeSpecRow t.row =
      .ok (x.metadata.tables.row? TypeSpecRow t.row) := Tables.row?_of hm.tables t.row
  rw [specification, hrow, ok_bind, TypeIndex.specification]
  cases x.metadata.tables.row? TypeSpecRow t.row with
  | none => rfl
  | some r =>
      refine bind_eq_lift_bind (hm.blob_eq r.signature) fun bytes hbytes => ?_
      obtain ⟨hdata, hsize⟩ := hm.blob_le hbytes
      have hmarks := Parser.markCount_le_size bytes
      exact Parser.readType_eq hdata (by omega)

/-- **Resolving a signature never faults**, nor does it run out of calls if there are enough for a
parser besides those for the levels that are left. The induction is on the calls, since the levels
that are left do not tell by how much the last one was passed. -/
theorem resolveAt_of {calls depth : Nat} (scope : GenericScope) (signature : TypeSig)
    (hcalls : 3 * Signature.budget + 1 + size + (maxLevels - depth) < calls) :
    (of x).resolveAt scope calls depth signature =
      lift (x.resolveWithin scope (maxLevels - depth) signature) := by
  induction calls generalizing depth signature with
  | zero => exact absurd hcalls (Nat.not_lt_zero _)
  | succ calls ih =>
      rw [resolveAt.eq_def]
      dsimp only
      by_cases hlimit : maxLevels ≤ depth
      · rw [if_pos hlimit, Nat.sub_eq_zero_of_le hlimit]
        rfl
      obtain ⟨levels, hlevels, hinner, hadd⟩ := level_left hlimit
      have hinnermost : maxLevels - (depth + 1 + 1) = levels - 1 := by omega
      have hadd' : Word.word64.add (depth + 1) 1 = .ok (depth + 1 + 1) := by
        have hbound : maxLevels = 50 := rfl
        exact Word.add_word64 (by omega)
      have hnext (s : TypeSig) :
          (of x).resolveAt scope calls (depth + 1) s = lift (x.resolveWithin scope levels s) := by
        rw [ih s (by omega), hinner]
      -- A specification takes two levels at once, and may so pass the last one.
      have hlast (s : TypeSig) : (of x).resolveAt scope calls (depth + 1 + 1) s =
          lift (x.resolveWithin scope (levels - 1) s) := by
        rw [ih s (by omega), hinnermost]
      have hname (t : Token) :
          (of x).nameAt calls (depth + 1) t = lift (x.nameWithin levels t) := by
        rw [nameAt_of hm.tables t (by omega), hinner]
      have hspecification := specification_of hm (show _ ≤ calls by omega)
      rw [if_neg hlimit, hlevels]
      cases signature with
      | simple | method | typeParam | methodParam => rfl
      | pointer s | byRef s | vector s | array s =>
          simp only [hadd, hnext, ok_bind, TypeIndex.resolveWithin]
          cases x.resolveWithin scope levels s <;> rfl
      | nominal kind t =>
          simp only [hadd, hadd', hlast, hname, tableOf_eq, hspecification, ok_bind,
            TypeIndex.resolveWithin, TypeIndex.isSpecification, decide_eq_true_eq]
          split
          · refine bind_eq_lift_bind rfl fun s _ => ?_
            cases levels <;> rfl
          · cases x.nameWithin levels t <;> rfl
      | generic kind definition arguments =>
          simp only [hadd, hnext, hname, ok_bind, TypeIndex.resolveWithin]
          refine bind_eq_lift_bind rfl fun name _ => ?_
          exact bind_eq_lift_bind (lift_mapM fun s _ => rfl) fun _ _ => rfl

/-- **Finding the class of an attribute never faults.** -/
theorem attributeClass_of {calls : Nat}
    (hcalls : 3 * Signature.budget + 1 + size + maxLevels < calls) (parent : Token) :
    (of x).attributeClass calls parent = lift (x.attributeClass parent) := by
  have hname (t : Token) : (of x).name calls t = lift (x.name t) := name_of hm.tables (by omega) t
  simp only [attributeClass, TypeIndex.attributeClass, tableOf_eq, ok_bind, hname,
    specification_of hm (show _ ≤ calls by omega), TypeIndex.isSpecification, decide_eq_true_eq]
  split
  · cases x.name parent <;> rfl
  split
  · refine bind_eq_lift_bind rfl fun s _ => ?_
    rcases TypeIndex.classToken? s with _ | t
    · rfl
    · simp only
      cases x.name t <;> rfl
  · rfl

end Resolving

end Resolver

end AliasStubs.Machine
