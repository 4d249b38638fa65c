import AliasStubs.Aliases.Marker
import AliasStubs.Failure

/-!
# The catalog of aliases

The aliases of a list of modules are found in the static classes of the modules. A module whose
types cannot be told is left out, and so is a method whose marker is not supported; both are
reported.

## Main definitions

* `Module` : a module as a source of types.
* `AliasMember` : an alias, `AliasMember.visibleParameters` the parameters a script gives.
* `ContainerAliases` : a static class with its aliases.
* `Scan` : the catalog and what was left out of it.
* `scan` : the scan of a list of modules.

Modules, types and methods keep their order everywhere.
-/

namespace AliasStubs

/-- A module as a source of types. -/
structure Module where
  /-- Its name. -/
  name : String
  /-- The types it defines, if they can be told. -/
  types : Except Failure (List TypeDefinition)

/-- An alias. -/
structure AliasMember where
  /-- Its name. -/
  name : String
  /-- How it is used. -/
  kind : AliasKind
  /-- Its parameters. The first one is the context of the script. -/
  parameters : List Parameter
  /-- Its return type. -/
  returnType : TypeDescriptor
  /-- The names of its own generic parameters. -/
  genericParameters : List String
  deriving Repr

/-- The parameters that a script gives: all but the first one. -/
def AliasMember.visibleParameters (a : AliasMember) : List Parameter :=
  a.parameters.drop 1

/-- A static class with its aliases. -/
structure ContainerAliases where
  /-- The namespace of the class. -/
  ns : String
  /-- The name of the class in metadata. -/
  name : String
  /-- Its aliases. -/
  aliases : List AliasMember
  deriving Repr

/-- A module that was left out. -/
structure ModuleFailure where
  /-- The name of the module. -/
  name : String
  /-- Why its types cannot be told. -/
  cause : Failure
  deriving DecidableEq, Repr

/-- A method that was left out because its marker is not supported. -/
structure SkippedMember where
  /-- The name of its class. -/
  container : String
  /-- Its name. -/
  member : String
  /-- The name of the marker. -/
  marker : String
  deriving DecidableEq, Repr

/-- The wording of why a method was left out. -/
def SkippedMember.message (s : SkippedMember) : String :=
  "Unsupported alias marker '" ++ s.marker ++ "' on " ++ s.container ++ "." ++ s.member

/-- What a scan finds. -/
structure Scan where
  /-- The static classes with aliases. -/
  catalog : List ContainerAliases
  /-- The modules that were left out. -/
  moduleFailures : List ModuleFailure
  /-- The methods that were left out. -/
  skippedMembers : List SkippedMember
  deriving Repr

/-- The number of aliases in a catalog. -/
def aliasCount (catalog : List ContainerAliases) : Nat :=
  catalog.foldr (fun c count => c.aliases.length + count) 0

namespace Module

/-- Why the module has to be left out, if it has. -/
def failure? (m : Module) : Option ModuleFailure :=
  match m.types with
  | .ok _ => none
  | .error cause => some ⟨m.name, cause⟩

/-- The static classes of the module, none if its types cannot be told. -/
def staticClasses (m : Module) : List TypeDefinition :=
  match m.types with
  | .ok types => types.filter (·.isStatic)
  | .error _ => []

end Module

namespace AliasMarkers

/-- The alias that a method is, if it is one. -/
def alias? (markers : AliasMarkers) (m : MethodDefinition) : Option AliasMember :=
  match markers.verdict m.attributes with
  | .alias kind => some
      { name := m.name
        kind
        parameters := m.parameters
        returnType := m.returnType
        genericParameters := m.genericParameters }
  | _ => none

/-- The report on a method of the class `container`, if its marker is not supported. -/
def skipped? (markers : AliasMarkers) (container : String) (m : MethodDefinition) :
    Option SkippedMember :=
  match markers.verdict m.attributes with
  | .unsupported marker => some ⟨container, m.name, marker⟩
  | _ => none

/-- A class with its aliases, if it has any. -/
def container? (markers : AliasMarkers) (t : TypeDefinition) : Option ContainerAliases :=
  match t.methods.filterMap markers.alias? with
  | [] => none
  | aliases => some ⟨t.ns, t.name, aliases⟩

end AliasMarkers

/-- The scan of a list of modules. -/
def scan (markers : AliasMarkers) (modules : List Module) : Scan where
  catalog := modules.flatMap fun m => m.staticClasses.filterMap markers.container?
  moduleFailures := modules.filterMap (·.failure?)
  skippedMembers := modules.flatMap fun m =>
    m.staticClasses.flatMap fun t => t.methods.filterMap (markers.skipped? t.name)

end AliasStubs
