import AliasStubs.Types.Definition

/-!
# Alias markers

A method is an alias if a marker is put on it as a custom attribute. There is a marker for aliases
that are called and one for aliases that are read like a property. The family of markers has
further members, which all end alike; a method that carries only such a marker is not supported.

## Main definitions

* `AliasKind` : how an alias is used.
* `AliasMarkers` : the names of the markers.
* `AliasMarkers.classify` : what one attribute says.
* `AliasMarkers.verdict` : what the attributes of a method say together.
-/

namespace AliasStubs

/-- How an alias is used. -/
inductive AliasKind
  /-- It is called with arguments. -/
  | callable
  /-- It is read like a property. -/
  | property
  deriving DecidableEq, Repr

/-- The names of the markers. -/
structure AliasMarkers where
  /-- The namespace of all markers. -/
  ns : String := "Cake.Core.Annotations"
  /-- The marker of aliases that are called. -/
  method : String := "CakeMethodAliasAttribute"
  /-- The marker of aliases that are read. -/
  property : String := "CakePropertyAliasAttribute"
  /-- What the names of all markers end in. -/
  familySuffix : String := "AliasAttribute"
  deriving DecidableEq, Repr

/-- What an attribute says about a method. -/
inductive MarkerMatch
  /-- The method is an alias of this kind. -/
  | alias (kind : AliasKind)
  /-- The method is meant as an alias, but of a kind that is not supported. -/
  | unsupported
  /-- Nothing. -/
  | unrelated
  deriving DecidableEq, Repr

/-- What all attributes of a method say about it. -/
inductive AliasVerdict
  /-- The method is an alias of this kind. -/
  | alias (kind : AliasKind)
  /-- The method carries this marker, which is not supported, and no better one. -/
  | unsupported (marker : String)
  /-- The method is no alias. -/
  | unrelated
  deriving DecidableEq, Repr

namespace AliasMarkers

/-- What one attribute says. -/
def classify (m : AliasMarkers) (a : AttributeType) : MarkerMatch :=
  if a.ns ≠ m.ns then .unrelated
  else if a.name = m.method then .alias .callable
  else if a.name = m.property then .alias .property
  else if m.familySuffix.toList.isSuffixOf a.name.toList then .unsupported
  else .unrelated

/-- The kind of alias that one attribute makes a method, if it is a supported marker. -/
def kind? (m : AliasMarkers) (a : AttributeType) : Option AliasKind :=
  match m.classify a with
  | .alias kind => some kind
  | _ => none

/-- What the attributes of a method say: the first supported marker decides, and without one the
first marker that is not supported. -/
def verdict (m : AliasMarkers) (attributes : List AttributeType) : AliasVerdict :=
  match attributes.findSome? m.kind? with
  | some kind => .alias kind
  | none =>
    match attributes.find? (m.classify · = .unsupported) with
    | some a => .unsupported a.name
    | none => .unrelated

end AliasMarkers

end AliasStubs
