import AliasStubs.Text.Split

/-!
# Paths

A path is a text whose steps are separated by slashes. Empty steps count for nothing, the step `.`
stays where it is, and the step `..` leads one directory up.

## Main definitions

* `FilePath` : a path; `FilePath.steps` its steps.
* `FilePath.fileName?` : the name that a path ends in.
* `FilePath.sibling` : the steps to another name in the same directory.
* `extension?` : what stands behind the last point of a name.
-/

namespace AliasStubs

/-- A path. -/
structure FilePath where
  /-- The path as it is given. -/
  text : String
  deriving DecidableEq, Repr

namespace FilePath

/-- The runs of characters between slashes. -/
def runs : List Char → List (List Char)
  | [] => [[]]
  | c :: cs =>
    match runs cs with
    | [] => [[c]]
    | r :: rs => if c = '/' then [] :: r :: rs else (c :: r) :: rs

/-- The steps of a path. -/
def steps (p : FilePath) : List String :=
  ((runs p.text.toList).filter (· ≠ [])).map String.ofList

/-- Whether a path ends in a slash, so that only a directory can be meant. -/
def endsInSlash (p : FilePath) : Bool :=
  p.text.toList.getLast? = some '/'

/-- The steps of a path without those that stay where they are. -/
def movingSteps (p : FilePath) : List String :=
  p.steps.filter (· ≠ ".")

/-- The name that a path ends in. A path that ends by leading up, or has no steps, has none. -/
def fileName? (p : FilePath) : Option String :=
  p.movingSteps.getLast?.filter (· ≠ "..")

/-- The steps to the name `name` in the directory of what `p` names, or in `p` itself if `p` ends
in no name. -/
def sibling (p : FilePath) (name : String) : List String :=
  match p.fileName? with
  | some _ => p.movingSteps.dropLast ++ [name]
  | none => p.steps ++ [name]

end FilePath

/-- What stands behind the last point of a name. A name that starts with its only point has no
extension. -/
def extension? (name : String) : Option String :=
  match splitAtLast? '.' name.toList with
  | some (_ :: _, after) => some (String.ofList after)
  | _ => none

end AliasStubs
