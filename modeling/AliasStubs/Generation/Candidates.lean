import AliasStubs.Assembly.Basic
import AliasStubs.Files.Tree

/-!
# Candidate assemblies

The candidates in a directory are its files with the extension `dll`. Those that cannot be opened
are reported.

## Main definitions

* `isLibraryName` : whether a name has the extension.
* `FileTree.candidates` : the candidates in a directory, by name.
* `openCandidates` : the modules among candidates, and why the others are none.
-/

namespace AliasStubs

/-- Whether a name has the extension `dll`, in letters of either case. -/
def isLibraryName (name : String) : Bool :=
  (extension? name).map (·.toList.map Char.toLower) = some "dll".toList

/-- The candidate that an entry of a directory is, if it is one: a file with the extension. -/
def candidate? : String × Entry → Option (String × ByteArray)
  | (name, .file bytes) => if isLibraryName name then some (name, bytes) else none
  | (_, .directory) => none

/-- The candidates in a directory, in ascending order of their names' code points. -/
def FileTree.candidates (t : FileTree) (directory : FilePath) :
    Except PathError (List (String × ByteArray)) := do
  let entries ← t.list directory
  return (entries.filterMap candidate?).mergeSort fun a b => decide (a.1 ≤ b.1)

/-- The module in a candidate. -/
def openCandidate (headers? : HeaderReader) (candidate : String × ByteArray) :
    Except ModuleFailure Module :=
  match Assembly.ofImage headers? candidate.1 candidate.2 with
  | .ok a => .ok a.toModule
  | .error cause => .error ⟨candidate.1, cause⟩

theorem openCandidate_of_ok {headers? : HeaderReader} {name : String} {bytes : ByteArray}
    {a : Assembly} (h : Assembly.ofImage headers? name bytes = .ok a) :
    openCandidate headers? (name, bytes) = .ok a.toModule := by
  simp only [openCandidate, h]

theorem openCandidate_of_error {headers? : HeaderReader} {name : String} {bytes : ByteArray}
    {cause : Failure} (h : Assembly.ofImage headers? name bytes = .error cause) :
    openCandidate headers? (name, bytes) = .error ⟨name, cause⟩ := by
  simp only [openCandidate, h]

/-- The modules in candidates, and the failures of those that hold none. -/
def openCandidates (headers? : HeaderReader) (candidates : List (String × ByteArray)) :
    List Module × List ModuleFailure :=
  let opened := candidates.map (openCandidate headers?)
  (opened.filterMap Except.toOption, opened.filterMap failureOf?)
where
  /-- The failure of a candidate, if it has one. -/
  failureOf? : Except ModuleFailure Module → Option ModuleFailure
    | .ok _ => none
    | .error f => some f

end AliasStubs
