import AliasStubs.Text.Split
import AliasStubs.Types.Primitive

/-!
# Names of types

The name of a type is the chain of its declaring types, the outermost first. In metadata, a name
may end in a grave accent and the number of generic parameters that its type declares; C# leaves
this suffix away.

## Main definitions

* `NameSegment` : one name of the chain, with the namespace recorded for it.
* `NameSegment.simpleName` : the name without its suffix.
* `NameSegment.arity` : the number in the suffix.
* `TypeName` : a chain of names, `TypeName.segments` their list.
* `TypeName.primitive?` : the primitive type of this name.

The two readings of the suffix are independent of each other: `simpleName` drops any run of digits,
even an empty one, and `arity` accepts any decimal number below `2 ^ 64`, even with a plus sign.
-/

namespace AliasStubs

/-- One name in the chain of a type's declaring types. -/
structure NameSegment where
  /-- The namespace recorded for the type, normally empty for a nested type. -/
  ns : String
  /-- The name in metadata, with its suffix. -/
  name : String
  deriving DecidableEq, Repr

namespace NameSegment

/-- What stands before and after the last grave accent of the name, if there is one. -/
def parts? (s : NameSegment) : Option (List Char × List Char) :=
  splitAtLast? '\x60' s.name.toList

/-- The number written by a run of decimal digits. -/
def decimal (digits : List Char) : Nat :=
  digits.foldl (fun n c => 10 * n + (c.toNat - '0'.toNat)) 0

/-- The number that `cs` writes: decimal digits, at least one, possibly behind a plus sign. -/
def decimal? (cs : List Char) : Option Nat :=
  let digits := match cs with
    | '+' :: rest => rest
    | _ => cs
  if digits ≠ [] ∧ digits.all Char.isDigit then some (decimal digits) else none

/-- The name without a suffix of a grave accent and digits only. -/
def simpleName (s : NameSegment) : String :=
  match s.parts? with
  | some (before, after) => if after.all Char.isDigit then String.ofList before else s.name
  | none => s.name

/-- The number behind the last grave accent, zero if there is none below `2 ^ 64`. -/
def arity (s : NameSegment) : Nat :=
  match s.parts?.bind fun (_, after) => decimal? after with
  | some n => if n < UInt64.size then n else 0
  | none => 0

end NameSegment

/-- The name of a type: the chain of its declaring types. -/
structure TypeName where
  /-- The outermost type. -/
  outermost : NameSegment
  /-- The types nested in it, each in the one before, the type itself last. -/
  nested : List NameSegment
  deriving DecidableEq, Repr

namespace TypeName

/-- The name of a type that is not nested. -/
def topLevel (ns name : String) : TypeName :=
  ⟨⟨ns, name⟩, []⟩

/-- The name of a type nested in the type `declaring`. -/
def nest (declaring : TypeName) (name : String) : TypeName :=
  { declaring with nested := declaring.nested ++ [⟨"", name⟩] }

/-- The names of the chain, the outermost first. -/
def segments (n : TypeName) : List NameSegment :=
  n.outermost :: n.nested

/-- The name of the type itself. -/
def innermost (n : TypeName) : NameSegment :=
  n.nested.getLastD n.outermost

/-- The namespace of the outermost type. -/
def rootNamespace (n : TypeName) : String :=
  n.outermost.ns

/-- The primitive type of this name: those are the classes of `System` that are not nested. -/
def primitive? (n : TypeName) : Option Primitive :=
  if n.nested = [] ∧ n.outermost.ns = "System" then
    Primitive.ofSystemName? n.outermost.name
  else
    none

end TypeName

end AliasStubs
