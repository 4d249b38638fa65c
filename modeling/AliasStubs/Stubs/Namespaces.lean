import AliasStubs.Text.Order
import AliasStubs.Types.Descriptor

/-!
# The namespaces that types need

A type that is spelled by its name and not by a keyword is found only if its namespace is in use.

## Main definitions

* `TypeDescriptor.namespaces` : the namespaces that the spelling of a type needs.
* `TypeDescriptor.collectNamespaces` : the same, put before those found so far.
-/

namespace AliasStubs

/-- The namespace that the spelling of a name needs, if any. -/
def TypeName.neededNamespace? (n : TypeName) : Option String :=
  if n.rootNamespace = "" then none else some n.rootNamespace

namespace TypeDescriptor

mutual

/-- Puts the namespaces that the spelling of a type needs before those found so far. -/
def collectNamespaces : TypeDescriptor → (found : List String) → List String
  | primitive p, found => if p.isKeyword then found else "System" :: found
  | named n, found =>
    match n.primitive? with
    | some _ => found
    | none => n.neededNamespace?.toList ++ found
  | generic definition arguments, found =>
    collectAllNamespaces arguments (definition.neededNamespace?.toList ++ found)
  | array element _, found => element.collectNamespaces found
  | pointer target, found => target.collectNamespaces found
  | byRef target _, found => target.collectNamespaces found
  | parameter _, found => found

/-- Puts the namespaces that the spellings of several types need before those found so far. -/
def collectAllNamespaces : List TypeDescriptor → (found : List String) → List String
  | [], found => found
  | t :: ts, found => collectAllNamespaces ts (t.collectNamespaces found)

end

/-- The namespaces that the spelling of a type needs, in no particular order. -/
def namespaces (t : TypeDescriptor) : List String :=
  t.collectNamespaces []

end TypeDescriptor

end AliasStubs
