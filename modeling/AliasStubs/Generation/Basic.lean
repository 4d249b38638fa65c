import AliasStubs.Generation.Candidates
import AliasStubs.Generation.Config

/-!
# Generation

A run scans modules for aliases and writes the source file of their stubs. The modules are given,
or they are the assemblies in a directory.

## Main definitions

* `Report` : what a run has done.
* `GenerationError` : why a run failed.
* `Config.generateFrom` : the run over given modules.
* `Config.generate` : the run over the assemblies in a directory.

A run takes a file tree and returns it as the run leaves it, also when it fails.
-/

namespace AliasStubs

/-- What a run has done. -/
structure Report where
  /-- Where the source file was written. -/
  outputPath : FilePath
  /-- The number of classes with aliases. -/
  containers : Nat
  /-- The number of aliases. -/
  aliases : Nat
  /-- The modules that were left out. -/
  skippedModules : List ModuleFailure
  /-- The methods that were left out. -/
  skippedMembers : List SkippedMember
  deriving DecidableEq, Repr

/-- Why a run failed. -/
inductive GenerationError
  /-- The directory could not be listed. -/
  | listing (cause : PathError)
  /-- The source file could not be written. -/
  | writing (path : FilePath) (cause : PathError)
  deriving DecidableEq, Repr

namespace Config

/-- The text of the source file for what a scan has found. -/
def stubs (c : Config) (s : Scan) : String :=
  c.sourceFile.text s.catalog

/-- The report on a scan. -/
def report (c : Config) (s : Scan) : Report where
  outputPath := c.outputPath
  containers := s.catalog.length
  aliases := aliasCount s.catalog
  skippedModules := s.moduleFailures
  skippedMembers := s.skippedMembers

/-- The run over given modules. -/
def generateFrom (c : Config) (modules : List Module) (t : FileTree) :
    Except GenerationError Report × FileTree :=
  let found := scan c.markers modules
  match t.write c.outputPath (c.stubs found).toUTF8 with
  | (.ok (), written) => (.ok (c.report found), written)
  | (.error cause, left) => (.error (.writing c.outputPath cause), left)

/-- The run over the assemblies in a directory, which are opened by the reader `headers?`.
Candidates that cannot be opened are reported before those whose types cannot be told. -/
def generate (c : Config) (headers? : HeaderReader) (directory : FilePath) (t : FileTree) :
    Except GenerationError Report × FileTree :=
  match t.candidates directory with
  | .error cause => (.error (.listing cause), t)
  | .ok candidates =>
    let (modules, failures) := openCandidates headers? candidates
    match c.generateFrom modules t with
    | (.ok r, written) => (.ok { r with skippedModules := failures ++ r.skippedModules }, written)
    | (.error e, left) => (.error e, left)

end Config

end AliasStubs
