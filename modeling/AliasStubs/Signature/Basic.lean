import AliasStubs.Metadata.Token

/-!
# Signatures

A signature describes a type, or the types of a method's return value and parameters, in the terms
of the metadata: types that need no further data, tokens of defined types, generic parameters by
position, and the constructions over them.

## Main definitions

* `SimpleType` : the types that need no further data.
* `TypeSig` : the signature of a type; `TypeSig.depth` how deeply it nests.
* `ParamSig`, `MethodSig` : the signature of a parameter and of a method.
-/

namespace AliasStubs

/-- The types that need no further data. The integers are named for their sign and number of
bytes. -/
inductive SimpleType
  | void
  | boolean
  | char
  | i1
  | u1
  | i2
  | u2
  | i4
  | u4
  | i8
  | u8
  | r4
  | r8
  | string
  | typedByRef
  /-- The signed integer of the width of an address. -/
  | nativeInt
  /-- The unsigned integer of the width of an address. -/
  | nativeUInt
  | object
  deriving DecidableEq, Repr

/-- Every simple type. -/
def SimpleType.all : List SimpleType :=
  [void, boolean, char, i1, u1, i2, u2, i4, u4, i8, u8, r4, r8, string, typedByRef, nativeInt,
   nativeUInt, object]

/-- The element code of a simple type. -/
def SimpleType.code : SimpleType → UInt8
  | void => 0x01
  | boolean => 0x02
  | char => 0x03
  | i1 => 0x04
  | u1 => 0x05
  | i2 => 0x06
  | u2 => 0x07
  | i4 => 0x08
  | u4 => 0x09
  | i8 => 0x0A
  | u8 => 0x0B
  | r4 => 0x0C
  | r8 => 0x0D
  | string => 0x0E
  | typedByRef => 0x16
  | nativeInt => 0x18
  | nativeUInt => 0x19
  | object => 0x1C

/-- The simple type of an element code. -/
def SimpleType.ofCode? (b : UInt8) : Option SimpleType :=
  all.find? (·.code == b)

@[simp] theorem SimpleType.ofCode?_code (t : SimpleType) : ofCode? t.code = some t := by
  cases t <;> decide

/-- A simple type is found by its element code only. -/
theorem SimpleType.code_of_ofCode? {b : UInt8} {t : SimpleType} (h : ofCode? b = some t) :
    t.code = b := by
  simpa using List.find?_some h

/-- Whether a defined type is a class or a value type. -/
inductive NominalKind
  | valueType
  | reference
  deriving DecidableEq, Repr

/-- The element code of a kind of defined type. -/
def NominalKind.code : NominalKind → UInt8
  | valueType => 0x11
  | reference => 0x12

/-- The kind of defined type of an element code. -/
def NominalKind.ofCode? (b : UInt8) : Option NominalKind :=
  if b = 0x11 then some valueType else if b = 0x12 then some reference else none

@[simp] theorem NominalKind.ofCode?_code (k : NominalKind) : ofCode? k.code = some k := by
  cases k <;> rfl

/-- A kind of defined type is found by its element code only. -/
theorem NominalKind.code_of_ofCode? {b : UInt8} {k : NominalKind} (h : ofCode? b = some k) :
    k.code = b := by
  unfold ofCode? at h
  split at h
  · rename_i hb
    cases h
    exact hb.symm
  · split at h
    · rename_i hb
      cases h
      exact hb.symm
    · cases h

/-- The signature of a parameter or return value, over signatures `τ` of types. -/
structure ParamSig (τ : Type) where
  /-- The tokens of the custom modifiers. -/
  modifiers : List Token
  /-- Whether the value is passed by reference. -/
  byRef : Bool
  /-- The type of the value. -/
  type : τ
  deriving Repr

/-- The signature of a method, over signatures `τ` of types. -/
structure MethodSig (τ : Type) where
  /-- Whether the method has an implicit receiver. -/
  hasThis : Bool
  /-- Whether the receiver is listed as the first parameter. -/
  explicitThis : Bool
  /-- Whether the method takes further arguments after its parameters. -/
  vararg : Bool
  /-- The number of the method's own generic parameters. -/
  genericCount : Nat
  /-- The return value. -/
  ret : ParamSig τ
  /-- The fixed parameters. -/
  params : List (ParamSig τ)
  /-- The further arguments. -/
  varargs : List (ParamSig τ)
  deriving Repr

/-- The signature of a type. -/
inductive TypeSig
  /-- A type that needs no further data. -/
  | simple (type : SimpleType)
  /-- An unmanaged pointer. -/
  | pointer (target : TypeSig)
  /-- A reference to a value. -/
  | byRef (target : TypeSig)
  /-- A defined type. -/
  | nominal (kind : NominalKind) (token : Token)
  /-- A generic parameter of the enclosing type, by position. -/
  | typeParam (index : Nat)
  /-- A generic parameter of the method, by position. -/
  | methodParam (index : Nat)
  /-- An array of one dimension. -/
  | vector (element : TypeSig)
  /-- An array of any number of dimensions. -/
  | array (element : TypeSig) (rank : Nat)
  /-- A generic type with its arguments. -/
  | generic (kind : NominalKind) (definition : Token) (arguments : List TypeSig)
  /-- A pointer to a method. -/
  | method (signature : MethodSig TypeSig)

mutual

/-- How deeply a type nests. The definition that a generic type is over counts as a level below it,
like the arguments. -/
def TypeSig.depth : TypeSig → Nat
  | .simple _ => 1
  | .nominal _ _ => 1
  | .typeParam _ => 1
  | .methodParam _ => 1
  | .pointer target => target.depth + 1
  | .byRef target => target.depth + 1
  | .vector element => element.depth + 1
  | .array element _ => element.depth + 1
  | .generic _ _ arguments => max 1 (TypeSig.depths arguments) + 1
  | .method signature => signature.depth + 1

/-- How deeply the deepest of several types nests. -/
def TypeSig.depths : List TypeSig → Nat
  | [] => 0
  | t :: ts => max t.depth (TypeSig.depths ts)

/-- How deeply the types of a method nest. -/
def MethodSig.depth : MethodSig TypeSig → Nat
  | ⟨_, _, _, _, ret, params, varargs⟩ =>
    max ret.depth (max (ParamSig.depths params) (ParamSig.depths varargs))

/-- How deeply the type of a parameter nests. -/
def ParamSig.depth : ParamSig TypeSig → Nat
  | ⟨_, _, type⟩ => type.depth

/-- How deeply the deepest type of several parameters nests. -/
def ParamSig.depths : List (ParamSig TypeSig) → Nat
  | [] => 0
  | p :: ps => max p.depth (ParamSig.depths ps)

end

end AliasStubs
