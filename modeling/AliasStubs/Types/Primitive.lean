/-!
# Primitive types

The primitive types of the type system are classes of the namespace `System`. C# spells all but
three of them with a keyword.

## Main definitions

* `Primitive` : the primitive types.
* `Primitive.systemName` and `Primitive.ofSystemName?` : their names in `System`.
* `Primitive.keyword` : their spelling in C#.
* `Primitive.isKeyword` : whether that spelling is a keyword.
-/

namespace AliasStubs

/-- A primitive type. -/
inductive Primitive
  | void
  | boolean
  | char
  | sbyte
  | byte
  | int16
  | uint16
  | int32
  | uint32
  | int64
  | uint64
  | single
  | double
  | decimal
  | string
  | object
  | intPtr
  | uintPtr
  | typedReference
  deriving DecidableEq, Repr

namespace Primitive

/-- All primitive types. -/
def all : List Primitive :=
  [void, boolean, char, sbyte, byte, int16, uint16, int32, uint32, int64, uint64, single, double,
    decimal, string, object, intPtr, uintPtr, typedReference]

/-- The name of the class in the namespace `System`. -/
def systemName : Primitive → String
  | void => "Void"
  | boolean => "Boolean"
  | char => "Char"
  | sbyte => "SByte"
  | byte => "Byte"
  | int16 => "Int16"
  | uint16 => "UInt16"
  | int32 => "Int32"
  | uint32 => "UInt32"
  | int64 => "Int64"
  | uint64 => "UInt64"
  | single => "Single"
  | double => "Double"
  | decimal => "Decimal"
  | string => "String"
  | object => "Object"
  | intPtr => "IntPtr"
  | uintPtr => "UIntPtr"
  | typedReference => "TypedReference"

/-- The spelling in C#: a keyword where there is one, else the name of the class. -/
def keyword : Primitive → String
  | void => "void"
  | boolean => "bool"
  | char => "char"
  | sbyte => "sbyte"
  | byte => "byte"
  | int16 => "short"
  | uint16 => "ushort"
  | int32 => "int"
  | uint32 => "uint"
  | int64 => "long"
  | uint64 => "ulong"
  | single => "float"
  | double => "double"
  | decimal => "decimal"
  | string => "string"
  | object => "object"
  | p => p.systemName

/-- Whether C# has a keyword for the type. -/
def isKeyword : Primitive → Bool
  | intPtr | uintPtr | typedReference => false
  | _ => true

/-- The primitive type whose class has this name. -/
def ofSystemName? (name : String) : Option Primitive :=
  all.find? (·.systemName = name)

/-- Every primitive type is listed. -/
theorem mem_all (p : Primitive) : p ∈ all := by
  cases p <;> decide

/-- A primitive type is found under its name. -/
theorem ofSystemName?_systemName (p : Primitive) : ofSystemName? p.systemName = some p := by
  cases p <;> decide

end Primitive

end AliasStubs
