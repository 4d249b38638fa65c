import AliasStubs.Assembly.Naming
import AliasStubs.Signature.Reader
import AliasStubs.Types.Descriptor

/-!
# Resolving signatures

A signature is resolved to a type by replacing its tokens with names. A token of a type
specification stands for the signature recorded there. Types nest, and specifications may refer to
each other, so a signature is resolved within a **budget** of levels.

## Main definitions

* `GenericScope` : the names of the generic parameters that a signature may refer to.
* `TypeIndex.specification` : the signature of a type specification.
* `TypeIndex.resolveWithin` : the type of a signature, within a budget of levels.
* `TypeIndex.resolve` : the type of a signature.
* `TypeIndex.attributeClass` : the class to which the constructor of an attribute belongs.
-/

namespace AliasStubs

/-- The primitive type of a simple type. -/
def SimpleType.primitive : SimpleType → Primitive
  | void => .void
  | boolean => .boolean
  | char => .char
  | i1 => .sbyte
  | u1 => .byte
  | i2 => .int16
  | u2 => .uint16
  | i4 => .int32
  | u4 => .uint32
  | i8 => .int64
  | u8 => .uint64
  | r4 => .single
  | r8 => .double
  | string => .string
  | typedByRef => .typedReference
  | nativeInt => .intPtr
  | nativeUInt => .uintPtr
  | object => .object

/-- The names of the generic parameters that a signature may refer to. -/
structure GenericScope where
  /-- Those of the declaring type, by position. -/
  typeParams : Array String
  /-- Those of the method, by position. -/
  methodParams : Array String

namespace GenericScope

/-- The name of a generic parameter of the declaring type. -/
def typeParam (s : GenericScope) (i : Nat) : String :=
  s.typeParams[i]?.getD ("T" ++ toString i)

/-- The name of a generic parameter of the method. -/
def methodParam (s : GenericScope) (i : Nat) : String :=
  s.methodParams[i]?.getD ("M" ++ toString i)

end GenericScope

namespace TypeIndex

/-- Whether a token names a type specification. -/
def isSpecification (t : Token) : Bool :=
  t.table = TableId.typeSpec.number

/-- The signature of the type specification that a token names. -/
def specification (x : TypeIndex) (t : Token) : Except Failure TypeSig :=
  match x.metadata.tables.row? TypeSpecRow t.row with
  | none => .error (.malformed (.badTypeSpec t))
  | some r => do Signature.readType (← x.metadata.blob r.signature)

/-- The type of a signature. Every construction takes one level of the budget, and a type
specification takes one more than the token that names it. A pointer to a method counts as an
integer of the width of an address. -/
def resolveWithin (x : TypeIndex) (scope : GenericScope) :
    (levels : Nat) → TypeSig → Except Failure TypeDescriptor
  | 0, _ => .error (.recursionLimit maxLevels)
  | levels + 1, signature =>
    match signature with
    | .simple t => .ok (.primitive t.primitive)
    | .method _ => .ok (.primitive .intPtr)
    | .typeParam i => .ok (.parameter (scope.typeParam i))
    | .methodParam i => .ok (.parameter (scope.methodParam i))
    | .pointer target => (resolveWithin x scope levels target).map .pointer
    | .byRef target => (resolveWithin x scope levels target).map (.byRef · .ref)
    | .vector element => (resolveWithin x scope levels element).map (.array · 1)
    | .array element rank => (resolveWithin x scope levels element).map (.array · rank)
    | .nominal _ t =>
      if isSpecification t then do
        let specified ← x.specification t
        match levels with
        | 0 => .error (.recursionLimit maxLevels)
        | levels + 1 => resolveWithin x scope levels specified
      else
        (x.nameWithin levels t).map .ofName
    | .generic _ definition arguments => do
      let name ← x.nameWithin levels definition
      let arguments ← arguments.mapM (resolveWithin x scope levels)
      return .generic name arguments

/-- The type of a signature. -/
def resolve (x : TypeIndex) (scope : GenericScope) (signature : TypeSig) :
    Except Failure TypeDescriptor :=
  x.resolveWithin scope maxLevels signature

/-- The token of the class that a signature is, or is an instance of. -/
def classToken? : TypeSig → Option Token
  | .generic _ definition _ => some definition
  | .nominal .reference t => some t
  | _ => none

/-- The class to which the constructor of an attribute belongs, given the parent of the reference
to the constructor. Parents that are no classes have none. -/
def attributeClass (x : TypeIndex) (parent : Token) : Except Failure (Option TypeName) :=
  if parent.table = TableId.typeDef.number ∨ parent.table = TableId.typeRef.number then
    (x.name parent).map some
  else if isSpecification parent then do
    match classToken? (← x.specification parent) with
    | some t => (x.name t).map some
    | none => return none
  else
    .ok none

end TypeIndex

end AliasStubs
