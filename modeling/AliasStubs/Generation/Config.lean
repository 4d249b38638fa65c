import AliasStubs.Files.Path
import AliasStubs.Stubs.SourceFile

/-!
# The configuration of a run

## Main definitions

* `Config` : what a run can be told.
* `Config.outputPath` : where the source file is written.
* `Config.sourceFile` : what the class of stubs is called.
-/

namespace AliasStubs

/-- What a run can be told. -/
structure Config where
  /-- Where to write the source file, if it is told. -/
  output? : Option FilePath := none
  /-- The namespace of the class of stubs. -/
  ns : String := "Cake.IntellisenseGenerator"
  /-- The name of the class of stubs. -/
  className : String := "CakeFileIntellisense"
  /-- The class it derives from. -/
  baseType : String := "CakeFile"
  /-- The markers that make methods aliases. -/
  markers : AliasMarkers := {}
  /-- Whether the file uses the namespaces that its declarations need. -/
  emitUsings : Bool := true
  deriving DecidableEq, Repr

namespace Config

/-- Where the source file is written: to a file named for the class if nothing else is told. -/
def outputPath (c : Config) : FilePath :=
  c.output?.getD ⟨c.className ++ ".cs"⟩

/-- What the class of stubs is called and where it stands. -/
def sourceFile (c : Config) : SourceFile where
  ns := c.ns
  className := c.className
  baseType := c.baseType
  emitUsings := c.emitUsings

end Config

end AliasStubs
