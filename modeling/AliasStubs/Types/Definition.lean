import AliasStubs.Types.Descriptor

/-!
# Type definitions

What a module says about its types: their names and attributes, their methods, and the custom
attributes of the methods.

## Main definitions

* `TypeAttributes` : the attributes of a type, `TypeAttributes.isStaticClass` the static classes.
* `ParamAttributes` : the attributes of a parameter, `ParamAttributes.refKind` its direction.
* `TypeDefinition`, `MethodDefinition`, `Parameter` and `AttributeType`.
-/

namespace AliasStubs

/-- The attributes of a type that matter here. -/
structure TypeAttributes where
  /-- The type is an interface. -/
  isInterface : Bool
  /-- The type cannot be instantiated. -/
  isAbstract : Bool
  /-- The type cannot be derived from. -/
  isSealed : Bool
  deriving DecidableEq, Repr

namespace TypeAttributes

/-- The attributes in a mask. Further bits of the mask are dropped. -/
def ofBits (bits : Nat) : TypeAttributes where
  isInterface := bits.testBit 5
  isAbstract := bits.testBit 7
  isSealed := bits.testBit 8

/-- The mask of the attributes. -/
def toBits (a : TypeAttributes) : Nat :=
  (if a.isInterface then 0x20 else 0) + (if a.isAbstract then 0x80 else 0) +
    (if a.isSealed then 0x100 else 0)

/-- Static classes are abstract and sealed at once. -/
def isStaticClass (a : TypeAttributes) : Bool :=
  a.isAbstract && a.isSealed && !a.isInterface

/-- The mask holds exactly the attributes. -/
theorem ofBits_toBits (a : TypeAttributes) : ofBits a.toBits = a := by
  rcases a with ⟨_ | _, _ | _, _ | _⟩ <;> decide

end TypeAttributes

/-- The attributes of a parameter that matter here. -/
structure ParamAttributes where
  /-- The parameter passes a value in. -/
  isIn : Bool
  /-- The parameter passes a value out. -/
  isOut : Bool
  deriving DecidableEq, Repr

namespace ParamAttributes

/-- No attribute. -/
def none : ParamAttributes :=
  ⟨false, false⟩

/-- The attributes in a mask. Further bits of the mask are dropped. -/
def ofBits (bits : Nat) : ParamAttributes where
  isIn := bits.testBit 0
  isOut := bits.testBit 1

/-- The mask of the attributes. -/
def toBits (a : ParamAttributes) : Nat :=
  (if a.isIn then 1 else 0) + (if a.isOut then 2 else 0)

/-- How a parameter with these attributes is passed if it is a reference. -/
def refKind (a : ParamAttributes) : RefKind :=
  if a.isOut then .out else if a.isIn then .readOnly else .ref

/-- The mask holds exactly the attributes. -/
theorem ofBits_toBits (a : ParamAttributes) : ofBits a.toBits = a := by
  rcases a with ⟨_ | _, _ | _⟩ <;> decide

end ParamAttributes

/-- The class of a custom attribute. -/
structure AttributeType where
  /-- Its namespace. -/
  ns : String
  /-- Its name. -/
  name : String
  deriving DecidableEq, Repr

/-- A parameter of a method. -/
structure Parameter where
  /-- Its name. -/
  name : String
  /-- Its type. -/
  type : TypeDescriptor
  deriving Repr

/-- A method of a type. -/
structure MethodDefinition where
  /-- Its name. -/
  name : String
  /-- The classes of the custom attributes put on it. -/
  attributes : List AttributeType
  /-- Its parameters, in order. -/
  parameters : List Parameter
  /-- Its return type. -/
  returnType : TypeDescriptor
  /-- The names of its own generic parameters. -/
  genericParameters : List String
  deriving Repr

/-- A type that a module defines. -/
structure TypeDefinition where
  /-- The namespace of its outermost declaring type. -/
  ns : String
  /-- Its name in metadata, with its suffix. -/
  name : String
  /-- Its attributes. -/
  attributes : TypeAttributes
  /-- Its methods, in order. -/
  methods : List MethodDefinition
  deriving Repr

namespace TypeDefinition

/-- Whether the type is a static class. -/
def isStatic (t : TypeDefinition) : Bool :=
  t.attributes.isStaticClass

end TypeDefinition

end AliasStubs
