import AliasStubs.Aliases.Catalog
import AliasStubs.Assembly.Introspection
import AliasStubs.Image.Opened

/-!
# Assemblies

An assembly is a name with opened metadata, which are given as they are or lie in an image.

## Main definitions

* `Assembly` : an assembly.
* `Assembly.ofMetadata` and `Assembly.ofImage` : open an assembly.
* `Assembly.types` : the types it defines.
* `Assembly.toModule` : the assembly as a source of types.
-/

namespace AliasStubs

/-- An assembly. -/
structure Assembly where
  /-- The name by which it is reported. -/
  name : String
  /-- The bytes of its metadata. -/
  bytes : ByteArray
  /-- Its metadata. -/
  metadata : Metadata

namespace Assembly

/-- Opens the assembly with the given metadata. -/
def ofMetadata (name : String) (bytes : ByteArray) : Except Failure Assembly := do
  let metadata ← Metadata.read bytes
  return { name, bytes, metadata }

/-- Opens the assembly in an image. -/
def ofImage (headers? : HeaderReader) (name : String) (data : ByteArray) :
    Except Failure Assembly := do
  let image ← Image.read headers? data
  ofMetadata name (← image.metadata)

/-- The types that the assembly defines. -/
def types (a : Assembly) : Except Failure (List TypeDefinition) :=
  a.metadata.types

/-- The assembly as a source of types. -/
def toModule (a : Assembly) : Module :=
  ⟨a.name, a.types⟩

end Assembly

end AliasStubs
