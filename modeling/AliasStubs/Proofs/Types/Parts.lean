import AliasStubs.Types.Descriptor

/-!
# The parts of types

A type is a tree: it is built from the target of a pointer or reference, the element of an array, or
the arguments of a generic type. A place in the tree is told by the numbers of the parts on the way
to it.

## Main definitions

* `TypeDescriptor.parts` : what a type is built from.
* `TypeDescriptor.Occurs` : a type is part of another one, at any depth.
* `TypeDescriptor.at?` : the part at a place.
-/

namespace AliasStubs

namespace TypeDescriptor

/-- The types that a type is built from. -/
def parts : TypeDescriptor → List TypeDescriptor
  | generic _ arguments => arguments
  | array element _ => [element]
  | pointer target => [target]
  | byRef target _ => [target]
  | primitive _ | named _ | parameter _ => []

/-- The type `u` is `t` or a part of it, at any depth. -/
inductive Occurs (u : TypeDescriptor) : TypeDescriptor → Prop
  | self : Occurs u u
  | part {s t : TypeDescriptor} (mem : s ∈ t.parts) (h : Occurs u s) : Occurs u t

/-- The part of a type at a place, which is told by the numbers of the parts on the way to it. -/
def at? (t : TypeDescriptor) : (place : List Nat) → Option TypeDescriptor
  | [] => some t
  | i :: place => t.parts[i]?.bind fun part => part.at? place

end TypeDescriptor

end AliasStubs
