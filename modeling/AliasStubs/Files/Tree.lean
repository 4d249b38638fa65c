import AliasStubs.Files.Path

/-!
# File trees

A file tree says which directories and files there are below a directory, and what the files
hold. A place in the tree is the list of names that leads to it. A path is followed step by step,
and every place it comes through has to be a directory.

## Main definitions

* `FileTree` : the entries of a tree, each at its place.
* `FileTree.follow` : the place that steps lead to.
* `FileTree.create`, `FileTree.move` and `FileTree.discard` : what can be done to a file.
* `FileTree.write` : writes a file so that its old content stays until the new one is complete.
* `FileTree.children` : the entries of a directory.
* `FileTree.put` : puts a file or a directory at a path, with all directories on the way.
* `FileTree.listing` : all entries in order.

## Main results

* `FileTree.get?_erase` and `FileTree.get?_set` : a change concerns its own place only.
-/

namespace AliasStubs

/-- What stands at a place. -/
inductive Entry
  /-- A directory. -/
  | directory
  /-- A file that holds `bytes`. -/
  | file (bytes : ByteArray)

/-- Why something cannot be done at a path. -/
inductive PathError
  /-- Nothing stands at the path or on the way to it. -/
  | notFound
  /-- A directory is needed, but a file is there. -/
  | notADirectory
  /-- A file is needed, but a directory is there. -/
  | isADirectory
  deriving DecidableEq, Repr

/-- The entries of a tree, each at its place. The directory that the tree stands in is not
listed. -/
structure FileTree where
  /-- The entries, in no particular order. -/
  entries : List (List String × Entry)
  /-- No two entries stand at one place. -/
  distinct : entries.Pairwise (·.1 ≠ ·.1)

namespace FileTree

/-- The tree without entries. -/
def empty : FileTree :=
  ⟨[], List.Pairwise.nil⟩

/-- What stands at a place. -/
def get? (t : FileTree) (place : List String) : Option Entry :=
  if place = [] then some .directory else t.entries.lookup place

/-- The tree without what stood at a place. -/
def erase (t : FileTree) (place : List String) : FileTree :=
  ⟨t.entries.filter (·.1 ≠ place), t.distinct.filter _⟩

/-- Nothing stands at a place that has been cleared. -/
theorem ne_of_mem_erase {t : FileTree} {place : List String} {e : List String × Entry}
    (h : e ∈ (t.erase place).entries) : e.1 ≠ place :=
  of_decide_eq_true (List.mem_filter.mp h).2

/-- The tree with an entry put at a place. -/
def set (t : FileTree) (place : List String) (e : Entry) : FileTree where
  entries := (place, e) :: (t.erase place).entries
  distinct := List.pairwise_cons.mpr
    ⟨fun _ he => (ne_of_mem_erase he).symm, (t.erase place).distinct⟩

/-- The directory that a tree stands in is always there. -/
@[simp] theorem get?_nil (t : FileTree) : t.get? [] = some .directory := by
  simp [get?]

/-- Taking something out changes its own place only. -/
theorem get?_erase (t : FileTree) {place place' : List String} (h : place' ≠ []) :
    (t.erase place).get? place' = if place' = place then none else t.get? place' := by
  simp only [get?, if_neg h, erase]
  induction t.entries with
  | nil => simp
  | cons e l ih =>
    rcases e with ⟨p, e⟩
    rw [List.filter_cons]
    by_cases hp : p = place
    · subst hp
      by_cases hplace : place' = p
      · simpa [hplace] using ih
      · have hbeq : (place' == p) = false := beq_false_of_ne hplace
        simpa [hplace, List.lookup_cons, hbeq] using ih
    · by_cases hplace : place' = p
      · subst hplace
        simp [hp]
      · have hbeq : (place' == p) = false := beq_false_of_ne hplace
        simpa [hp, List.lookup_cons, hbeq] using ih

/-- Putting something in changes its own place only. -/
theorem get?_set (t : FileTree) {place place' : List String} (e : Entry) (h : place' ≠ []) :
    (t.set place e).get? place' = if place' = place then some e else t.get? place' := by
  have herase : (t.erase place).get? place' = _ := t.get?_erase h
  by_cases hplace : place' = place
  · subst hplace
    simp [get?, h, set]
  · have hbeq : (place' == place) = false := beq_false_of_ne hplace
    rw [if_neg hplace] at herase ⊢
    rw [← herase]
    simp [get?, h, set, List.lookup_cons, hbeq]

/-! ### Following paths -/

/-- The place one step away. -/
def stepFrom (place : List String) (step : String) : List String :=
  if step = "." then place else if step = ".." then place.dropLast else place ++ [step]

/-- The place that steps lead to from another one. What stands there is not asked. -/
def followFrom (t : FileTree) : (place steps : List String) → Except PathError (List String)
  | place, [] => .ok place
  | place, step :: rest =>
    match t.get? place with
    | none => .error .notFound
    | some (.file _) => .error .notADirectory
    | some .directory => followFrom t (stepFrom place step) rest

/-- The place that steps lead to. -/
def follow (t : FileTree) (steps : List String) : Except PathError (List String) :=
  t.followFrom [] steps

/-- The place that a path leads to. The empty path leads nowhere. -/
def locate (t : FileTree) (p : FilePath) : Except PathError (List String) :=
  if p.text = "" then .error .notFound else t.follow p.steps

/-- What the file at a place holds. -/
def bytesAt (t : FileTree) (place : List String) : Except PathError ByteArray :=
  match t.get? place with
  | none => .error .notFound
  | some .directory => .error .isADirectory
  | some (.file bytes) => .ok bytes

/-- What the file at a path holds. -/
def read (t : FileTree) (p : FilePath) : Except PathError ByteArray := do
  t.bytesAt (← t.locate p)

/-! ### Files -/

/-- The tree with a file put where steps lead, in place of a file that was there. -/
def create (t : FileTree) (steps : List String) (bytes : ByteArray) :
    Except PathError FileTree := do
  let place ← t.follow steps
  match t.get? place with
  | some .directory => throw .isADirectory
  | _ => return t.set place (.file bytes)

/-- The tree with the file that steps lead to moved to a path, in place of a file that was there. -/
def move (t : FileTree) (steps : List String) (target : FilePath) :
    Except PathError FileTree := do
  let source ← t.follow steps
  let bytes ← t.bytesAt source
  let place ← t.locate target
  if target.endsInSlash then
    throw .notADirectory
  match t.get? place with
  | some .directory => throw .isADirectory
  | _ => return (t.erase source).set place (.file bytes)

/-- The tree without the file that steps lead to, if they lead to one. -/
def discard (t : FileTree) (steps : List String) : FileTree :=
  match t.follow steps with
  | .error _ => t
  | .ok place =>
    match t.get? place with
    | some (.file _) => t.erase place
    | _ => t

/-- The steps to the file in which new content is gathered before it is moved to a path. -/
def temporary (p : FilePath) : List String :=
  p.sibling (p.fileName?.getD "" ++ ".tmp")

/-- Writes a file: the new content is gathered in a file beside it, which is moved to the path when
it is complete. If that fails, the file beside it is discarded. -/
def write (t : FileTree) (p : FilePath) (bytes : ByteArray) : Except PathError Unit × FileTree :=
  match t.create (temporary p) bytes with
  | .error e => (.error e, t.discard (temporary p))
  | .ok gathered =>
    match gathered.move (temporary p) p with
    | .error e => (.error e, gathered.discard (temporary p))
    | .ok written => (.ok (), written)

/-! ### Directories -/

/-- The entries of the directory at a place, by their names. -/
def children (t : FileTree) (place : List String) : List (String × Entry) :=
  t.entries.filterMap fun (p, e) =>
    if p.dropLast = place then p.getLast?.map (·, e) else none

/-- The entries of the directory at a path. -/
def list (t : FileTree) (p : FilePath) : Except PathError (List (String × Entry)) := do
  let place ← t.locate p
  match t.get? place with
  | none => throw .notFound
  | some (.file _) => throw .notADirectory
  | some .directory => return t.children place

/-- The tree with a directory at a place where nothing stood. -/
def addDirectory (t : FileTree) (place : List String) : FileTree :=
  match t.get? place with
  | some _ => t
  | none => t.set place .directory

/-- The tree with a directory at every place that steps lead through from another one. The first
file on the way ends the walk. -/
def addDirectories : FileTree → (place steps : List String) → FileTree
  | t, _, [] => t
  | t, place, step :: rest =>
    let next := stepFrom place step
    match t.get? next with
    | some (.file _) => t
    | _ => addDirectories (t.addDirectory next) next rest

/-- The tree with a directory where steps lead, if the way is there and nothing stands at its
end. -/
def createDirectory (t : FileTree) (steps : List String) : FileTree :=
  match t.follow steps with
  | .ok place => t.addDirectory place
  | .error _ => t

/-- The tree with a file put at a path, or a directory if the path ends in a slash, and with all
directories that the path leads through, also those that it leaves again by a step up. -/
def put (t : FileTree) (p : FilePath) (bytes : ByteArray) : FileTree :=
  let made := addDirectories t [] p.movingSteps.dropLast
  if p.endsInSlash then
    made.createDirectory p.steps
  else
    match made.create p.steps bytes with
    | .ok filled => filled
    | .error _ => made

/-- The text of an entry at its place. -/
def entryText : List String × Entry → String
  | (place, .directory) => "/".intercalate place ++ "/"
  | (place, .file _) => "/".intercalate place

/-- Whether a place comes before another one, or is the same. A directory comes before what it
holds, and names are in ascending order of their code points. -/
def placeLe : List String → List String → Bool
  | [], _ => true
  | _ :: _, [] => false
  | a :: as, b :: bs => if a = b then placeLe as bs else decide (a ≤ b)

/-- The texts of all entries. A directory comes before what it holds, and the entries of a
directory are in ascending order of their names' code points. -/
def listing (t : FileTree) : List String :=
  (t.entries.mergeSort fun a b => placeLe a.1 b.1).map entryText

end FileTree

end AliasStubs
