import AliasStubs.Generation.Basic
import AliasStubs.Proofs.Files.Write

/-!
# What a run does to the file tree

A run reads everything before it writes, and it writes one file. So the output path is **all or
nothing**: it holds the complete source file after a run that succeeds, and after one that fails it
holds what it held before.

Elsewhere the tree stays as it is, with one exception. The source file is gathered under a fixed
name beside the output path. If a file of this name is there already, every run that gets as far as
writing destroys it, also a run that fails.

## Main definitions

* `Config.run` : a run over what a `Source` says, given modules or the assemblies in a directory.
* `CommitsOrKeeps` : the output path holds the text, or what it held before.
* `TouchesOnly` : every other place holds what it held before, and after a failure all places do.

## Main results

* `Config.output_commitsOrKeeps` : the output path is all or nothing.
* `Config.touchesOnly_output_iff` : when a run touches nothing but its output.
-/

namespace AliasStubs

open FileTree

/-- What a run is over. -/
inductive Source
  /-- Modules that are given. -/
  | given (modules : List Module)
  /-- The assemblies in a directory, which are opened by a reader of headers. -/
  | directory (headers? : HeaderReader) (path : FilePath)

/-- The modules that are scanned, unless the directory cannot be listed. -/
def Source.modules (t : FileTree) : Source → Except PathError (List Module)
  | .given modules => .ok modules
  | .directory headers? path =>
    (t.candidates path).map fun candidates => (openCandidates headers? candidates).1

/-- A run over given modules or over a directory. -/
def Config.run (c : Config) (t : FileTree) :
    Source → Except GenerationError Report × FileTree
  | .given modules => c.generateFrom modules t
  | .directory headers? path => c.generate headers? path t

section Effects

variable {ε α : Type}

/-- A run from the tree `t` **commits or keeps** what stands at `p`: after a success there is a file
that holds exactly `text`, and after a failure there is what was there before. -/
def CommitsOrKeeps (t : FileTree) (p : FilePath) (text : String) (run : Except ε α × FileTree) :
    Prop :=
  run.2.lookup? p = if run.1.isOk then some (.file text.toUTF8) else t.lookup? p

/-- A run from the tree `t` **touches only** what stands at `p`, and not even this if it fails. -/
structure TouchesOnly (t : FileTree) (p : FilePath) (run : Except ε α × FileTree) : Prop where
  elsewhere : ∀ place, t.locate p ≠ .ok place → run.2.get? place = t.get? place
  of_failure : run.1.isOk = false → ∀ place, run.2.get? place = t.get? place

variable {t : FileTree} {p : FilePath} {text : String} {run : Except ε α × FileTree}

theorem commitsOrKeeps_of_write
    (htree : run.2 = (t.write p text.toUTF8).2)
    (hok : run.1.isOk = (t.write p text.toUTF8).1.isOk) : CommitsOrKeeps t p text run := by
  rw [CommitsOrKeeps, htree, hok]
  exact lookup?_write t p text.toUTF8

/-- The place of a file that is gathered is not the place that it is moved to. -/
theorem locate_ne_of_filePlace? {place : List String}
    (h : t.filePlace? (temporary p) = some place) :
    t.locate p ≠ .ok place ∧ t.get? place ≠ none := by
  unfold filePlace? at h
  split at h
  · cases h
  · rename_i place' hfollow
    split at h
    · rename_i old hget
      cases h
      exact ⟨fun hlocate => ne_of_follow_temporary hlocate hfollow rfl, by simp [hget]⟩
    · cases h

/-- A run that does what a write does touches nothing but its path exactly if no file stood beside
the path. -/
theorem touchesOnly_iff_of_write {bytes : ByteArray} (htree : run.2 = (t.write p bytes).2)
    (hok : run.1.isOk = (t.write p bytes).1.isOk) :
    TouchesOnly t p run ↔ t.filePlace? (temporary p) = none := by
  constructor
  · intro h
    cases hplace : t.filePlace? (temporary p) with
    | none => rfl
    | some place =>
        obtain ⟨hlocate, hget⟩ := locate_ne_of_filePlace? hplace
        have hlost := t.get?_write p bytes hlocate
        rw [← htree, h.elsewhere place hlocate, hplace, if_pos rfl] at hlost
        exact absurd hlost hget
  · intro h
    refine ⟨fun place hlocate => ?_, fun hfails place => ?_⟩
    · rw [htree, get?_write _ _ _ hlocate, h]
      rfl
    · rw [htree, get?_write_of_not_isOk _ _ _ (hok ▸ hfails), h]
      rfl

end Effects

namespace Config

variable (c : Config) (t : FileTree)

/-! ### A run is a write -/

/-- The write of the source file for given modules. -/
def writeStubs (modules : List Module) : Except PathError Unit × FileTree :=
  t.write c.outputPath (c.stubs (scan c.markers modules)).toUTF8

/-- A run over given modules leaves the tree that the write leaves, and succeeds if it does. -/
theorem generateFrom_write (modules : List Module) :
    (c.generateFrom modules t).2 = (c.writeStubs t modules).2 ∧
      (c.generateFrom modules t).1.isOk = (c.writeStubs t modules).1.isOk := by
  simp only [generateFrom, writeStubs]
  rcases t.write c.outputPath (c.stubs (scan c.markers modules)).toUTF8 with ⟨_ | _, left⟩ <;>
    exact ⟨rfl, rfl⟩

/-- A run that finds its modules leaves the tree that the write leaves, and succeeds if it does. -/
theorem run_of_ok {source : Source} {modules : List Module}
    (h : source.modules t = .ok modules) :
    (c.run t source).2 = (c.writeStubs t modules).2 ∧
      (c.run t source).1.isOk = (c.writeStubs t modules).1.isOk := by
  cases source with
  | given given =>
      obtain rfl : given = modules := Except.ok.inj h
      exact c.generateFrom_write t given
  | directory headers? path =>
      rw [Source.modules] at h
      cases hcandidates : t.candidates path with
      | error cause =>
          rw [hcandidates] at h
          cases h
      | ok candidates =>
          rw [hcandidates] at h
          obtain rfl : (openCandidates headers? candidates).1 = modules := Except.ok.inj h
          obtain ⟨htree, hok⟩ := c.generateFrom_write t (openCandidates headers? candidates).1
          rw [← htree, ← hok]
          simp only [run, generate, hcandidates]
          rcases c.generateFrom (openCandidates headers? candidates).1 t with ⟨_ | _, left⟩ <;>
            exact ⟨rfl, rfl⟩

/-- A run over a directory that cannot be listed leaves the tree as it is. -/
theorem run_of_error {source : Source} {cause : PathError} (h : source.modules t = .error cause) :
    c.run t source = (.error (.listing cause), t) := by
  cases source with
  | given modules => cases h
  | directory headers? path =>
      rw [Source.modules] at h
      cases hcandidates : t.candidates path with
      | error cause' =>
          rw [hcandidates] at h
          obtain rfl : cause' = cause := Except.error.inj h
          simp only [run, generate, hcandidates]
      | ok candidates =>
          rw [hcandidates] at h
          cases h

/-! ### Main results -/

/-- **The output path is all or nothing.** After a success it holds exactly the complete source file
for the modules of the run, and after a failure what it held before. No file is left where the
source file is gathered. A run that cannot list its directory does not come to writing, and changes
nothing at all. -/
theorem output_commitsOrKeeps (source : Source) :
    match source.modules t with
    | .ok modules =>
      CommitsOrKeeps t c.outputPath (c.stubs (scan c.markers modules)) (c.run t source) ∧
        (c.run t source).2.filePlace? (temporary c.outputPath) = none
    | .error cause => c.run t source = (.error (.listing cause), t) := by
  cases hmodules : source.modules t with
  | error cause => exact c.run_of_error t hmodules
  | ok modules =>
      obtain ⟨htree, hok⟩ := c.run_of_ok t hmodules
      refine ⟨commitsOrKeeps_of_write htree hok, ?_⟩
      rw [htree]
      exact filePlace?_write t _ _

/-- **When a run touches nothing but its output.** A run leaves every other place as it was, and
after a failure all of them, exactly if it does not come to writing or no file stood where the
source file is gathered. Such a file is all that a run ever destroys. -/
theorem touchesOnly_output_iff (source : Source) :
    (TouchesOnly t c.outputPath (c.run t source) ↔
      (∃ cause, source.modules t = .error cause) ∨
        t.filePlace? (temporary c.outputPath) = none) ∧
    ∀ place, t.locate c.outputPath = .ok place ∨
      (c.run t source).2.get? place = t.get? place ∨
      t.filePlace? (temporary c.outputPath) = some place ∧
        (c.run t source).2.get? place = none := by
  cases hmodules : source.modules t with
  | error cause =>
      rw [c.run_of_error t hmodules]
      exact ⟨iff_of_true ⟨fun _ _ => rfl, fun _ _ => rfl⟩ (.inl ⟨cause, rfl⟩),
        fun place => .inr (.inl rfl)⟩
  | ok modules =>
      obtain ⟨htree, hok⟩ := c.run_of_ok t hmodules
      refine ⟨?_, fun place => ?_⟩
      · rw [touchesOnly_iff_of_write htree hok]
        simp
      · by_cases hplace : t.locate c.outputPath = .ok place
        · exact .inl hplace
        · rw [htree, writeStubs, get?_write _ _ _ hplace]
          by_cases hbeside : t.filePlace? (temporary c.outputPath) = some place
          · exact .inr (.inr ⟨hbeside, if_pos hbeside⟩)
          · exact .inr (.inl (if_neg hbeside))

end Config

end AliasStubs
