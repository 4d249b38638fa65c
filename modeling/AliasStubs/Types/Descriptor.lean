import AliasStubs.Types.Name

/-!
# Types

A type is a tree of primitive types, named types, instances of generic types, arrays, pointers,
references and generic parameters, which are known by their names. Tokens do not occur in it: this
is what signatures are resolved to.

## Main definitions

* `RefKind` : how a parameter is passed by reference.
* `TypeDescriptor` : the types.
* `TypeDescriptor.ofName` : the type of a name, which may be a primitive type.
-/

namespace AliasStubs

/-- How a parameter is passed by reference. -/
inductive RefKind
  /-- To be read and written. -/
  | ref
  /-- To be written. -/
  | out
  /-- To be read. -/
  | readOnly
  deriving DecidableEq, Repr

/-- The keyword of a kind of reference. -/
def RefKind.keyword : RefKind → String
  | ref => "ref"
  | out => "out"
  | readOnly => "in"

/-- A type. -/
inductive TypeDescriptor
  /-- A primitive type. -/
  | primitive (p : Primitive)
  /-- A class, structure or interface. -/
  | named (name : TypeName)
  /-- An instance of a generic type. -/
  | generic (definition : TypeName) (arguments : List TypeDescriptor)
  /-- An array with `rank` dimensions. -/
  | array (element : TypeDescriptor) (rank : Nat)
  /-- A pointer. -/
  | pointer (target : TypeDescriptor)
  /-- A reference. -/
  | byRef (target : TypeDescriptor) (kind : RefKind)
  /-- A generic parameter. -/
  | parameter (name : String)
  deriving Repr

namespace TypeDescriptor

/-- The type of methods that return nothing. -/
def void : TypeDescriptor :=
  primitive .void

/-- The type of a name: a primitive type if it names one. -/
def ofName (n : TypeName) : TypeDescriptor :=
  match n.primitive? with
  | some p => primitive p
  | none => named n

end TypeDescriptor

end AliasStubs
