import AliasStubs.Aliases.Catalog
import AliasStubs.Stubs.Namespaces
import AliasStubs.Stubs.Spelling

/-!
# The source file of stubs

The stubs of a catalog are one source file. It declares a class with one member for each alias, so
that an editor can offer the aliases; the members do nothing but throw. The members of a container
stand in a region of their own.

## Main definitions

* `AliasMember.declaration` : the line that declares an alias.
* `referencedNamespaces` : the namespaces that the declarations need.
* `SourceFile` : what the class is called and where it stands.
* `SourceFile.lines` : the lines of the file, `SourceFile.text` its text.
-/

namespace AliasStubs

/-! ### Aliases -/

/-- The body of every member. -/
def memberBody : String :=
  " => throw new System.NotSupportedException();"

/-- What follows the name of an alias: generic parameters and parameters if it is called. -/
def AliasMember.parameterPart (a : AliasMember) : String :=
  match a.kind with
  | .callable =>
    genericMarker a.genericParameters ++ "(" ++ parameterList a.visibleParameters ++ ")"
  | .property => ""

/-- The line that declares an alias. -/
def AliasMember.declaration (a : AliasMember) : String :=
  "\t\tprotected " ++ a.returnType.spelling ++ " " ++ a.name ++ a.parameterPart ++ memberBody

/-- The types that occur in the declaration of an alias. -/
def AliasMember.declaredTypes (a : AliasMember) : List TypeDescriptor :=
  match a.kind with
  | .callable => a.returnType :: a.visibleParameters.map (·.type)
  | .property => [a.returnType]

/-- The namespaces that the declarations of a catalog need, in ascending order. -/
def referencedNamespaces (catalog : List ContainerAliases) : List String :=
  let types := catalog.flatMap fun c => c.aliases.flatMap (·.declaredTypes)
  sortedDistinct (TypeDescriptor.collectAllNamespaces types [])

/-- The lines of a container: its region. -/
def ContainerAliases.lines (c : ContainerAliases) : List String :=
  ["#region " ++ c.name] ++ c.aliases.map (·.declaration) ++ ["#endregion"]

/-! ### Files -/

/-- What the class of stubs is called and where it stands. -/
structure SourceFile where
  /-- The namespace of the class. -/
  ns : String
  /-- The name of the class. -/
  className : String
  /-- The class it derives from. -/
  baseType : String
  /-- Whether the file uses the namespaces that its declarations need. -/
  emitUsings : Bool
  deriving DecidableEq, Repr

/-- The lines that warn against editing the file. -/
def banner : List String :=
  ["//------------------------------------------------------------------------------",
    "// <auto-generated>",
    "//     This code was generated by a tool.",
    "//",
    "//     Changes to this file may cause incorrect behavior and will be lost if",
    "//     the code is regenerated. ",
    "// </auto-generated>",
    "//------------------------------------------------------------------------------"]

/-- The lines that use namespaces, with an empty line behind them, or nothing at all. -/
def usingLines (namespaces : List String) : List String :=
  if namespaces = [] then [] else namespaces.map (fun ns => "using " ++ ns ++ ";") ++ [""]

namespace SourceFile

/-- The lines between the banner and the members. -/
def opening (f : SourceFile) : List String :=
  ["namespace " ++ f.ns,
    "\x7b",
    "\tpublic abstract partial class " ++ f.className ++ " : " ++ f.baseType,
    "\t\x7b"]

/-- The lines behind the members. -/
def closing : List String :=
  ["\t\x7d", "\x7d"]

/-- The lines of the file that declares the aliases of a catalog. -/
def lines (f : SourceFile) (catalog : List ContainerAliases) : List String :=
  banner ++ [""] ++
    (if f.emitUsings then usingLines (referencedNamespaces catalog) else []) ++
    f.opening ++ catalog.flatMap (·.lines) ++ closing

/-- The text of the file that declares the aliases of a catalog: every line ends in a line feed. -/
def text (f : SourceFile) (catalog : List ContainerAliases) : String :=
  String.join ((f.lines catalog).map (· ++ "\n"))

end SourceFile

end AliasStubs
