import AliasStubs.Proofs.Files.Listing
import AliasStubs.Proofs.Generation.Effects
import AliasStubs.Proofs.Image.Wrapped

/-!
# Running again

A run over a directory changes the tree that it reads from, and the output may even lie in the
directory. But the run makes no directory, and what it puts at the output path and takes away beside
it is no candidate, unless the output is called like one. So a second run finds the candidates of
the first, comes to the same text, and writes it over itself.

## Main results

* `Config.generate_eq_ok_iff` : what a run over a directory comes to if it succeeds.
* `Config.exists_generate_eq_ok_iff` : when it succeeds.
* `Config.generate_again` : **running again changes nothing and reports the same**.
-/

namespace AliasStubs

open FileTree

namespace Config

variable {c : Config} {headers? : HeaderReader} {t left : FileTree} {r : Report}

/-! ### What a run comes to -/

/-- A run over given modules that succeeds has written their stubs, and reports their scan. -/
theorem generateFrom_eq_ok_iff {modules : List Module} :
    c.generateFrom modules t = (.ok r, left) ↔
      t.write c.outputPath (c.stubs (scan c.markers modules)).toUTF8 = (.ok (), left) ∧
        r = c.report (scan c.markers modules) := by
  rw [generateFrom]
  rcases t.write c.outputPath (c.stubs (scan c.markers modules)).toUTF8 with ⟨e | ⟨⟩, written⟩
  · simp
  · simp [eq_comm, and_comm]

/-- A run over a directory that succeeds is a run over the modules in its candidates, and reports
the others before those that it left out. -/
theorem generate_eq_ok_iff {directory : FilePath} :
    c.generate headers? directory t = (.ok r, left) ↔
      ∃ found bare, t.candidates directory = .ok found ∧
        c.generateFrom (openCandidates headers? found).1 t = (.ok bare, left) ∧
        r = { bare with
          skippedModules := (openCandidates headers? found).2 ++ bare.skippedModules } := by
  rw [generate]
  rcases t.candidates directory with e | found
  · simp
  · rcases hrun : c.generateFrom (openCandidates headers? found).1 t with ⟨e | bare, written⟩
    · simp [hrun]
    · simp only [Except.ok.injEq, exists_and_left, exists_eq_left', hrun, Prod.mk.injEq]
      constructor
      · rintro ⟨rfl, rfl⟩
        exact ⟨bare, ⟨rfl, rfl⟩, rfl⟩
      · rintro ⟨_, ⟨rfl, rfl⟩, rfl⟩
        exact ⟨rfl, rfl⟩

/-- A run over a directory succeeds exactly if the directory can be listed and the output path
written. What the candidates hold does not matter. -/
theorem exists_generate_eq_ok_iff {directory : FilePath} :
    (∃ r left, c.generate headers? directory t = (.ok r, left)) ↔
      (∃ found, t.candidates directory = .ok found) ∧ Writable t c.outputPath := by
  constructor
  · rintro ⟨r, left, h⟩
    obtain ⟨found, bare, hfound, hrun, -⟩ := generate_eq_ok_iff.mp h
    obtain ⟨hwrite, -⟩ := generateFrom_eq_ok_iff.mp hrun
    exact ⟨⟨found, hfound⟩, writable_of_write hwrite⟩
  · rintro ⟨⟨found, hfound⟩, beside, place, hwritable⟩
    have hwrite := hwritable.write_eq
      (c.stubs (scan c.markers (openCandidates headers? found).1)).toUTF8
    exact ⟨_, _, generate_eq_ok_iff.mpr
      ⟨found, _, hfound, generateFrom_eq_ok_iff.mpr ⟨hwrite, rfl⟩, rfl⟩⟩

/-! ### Main result -/

/-- **Running again changes nothing and reports the same.** If the output is not called like a
candidate, the run over the tree that a successful run has left finds the same modules, and so
writes the same text, succeeds with the same report, and leaves the tree exactly as it is. -/
theorem generate_again (c : Config) (headers? : HeaderReader) (directory : FilePath) (t : FileTree)
    {r : Report} {left : FileTree}
    (hname : ∀ name, c.outputPath.fileName? = some name → isLibraryName name = false)
    (h : c.generate headers? directory t = (.ok r, left)) :
    (∃ modules, (Source.directory headers? directory).modules t = .ok modules ∧
      (Source.directory headers? directory).modules left = .ok modules ∧
      left.lookup? c.outputPath = some (.file (c.stubs (scan c.markers modules)).toUTF8)) ∧
    c.generate headers? directory left = (.ok r, left) := by
  obtain ⟨found, bare, hfound, hrun, hr⟩ := generate_eq_ok_iff.mp h
  obtain ⟨hwrite, hbare⟩ := generateFrom_eq_ok_iff.mp hrun
  have hfound' : left.candidates directory = .ok found := by
    have hcandidates := candidates_write hname hfound
      (c.stubs (scan c.markers (openCandidates headers? found).1)).toUTF8
    rwa [hwrite] at hcandidates
  refine ⟨⟨(openCandidates headers? found).1, ?_, ?_, lookup?_of_write hwrite⟩, ?_⟩
  · rw [Source.modules, hfound]
    rfl
  · rw [Source.modules, hfound']
    rfl
  · have hrun' : c.generateFrom (openCandidates headers? found).1 left = (.ok bare, left) :=
      generateFrom_eq_ok_iff.mpr ⟨write_again hwrite, hbare⟩
    exact generate_eq_ok_iff.mpr ⟨found, bare, hfound', hrun', hr⟩

/-! ### Sample -/

/-- A file that is no image. -/
def brokenBytes : ByteArray :=
  ⟨#[0x4D, 0x5A]⟩

/-- A directory with an assembly, with a file that is none, and with one at the place where the text
of the output `in/out.cs` is gathered. -/
def crowdedTree : FileTree where
  entries :=
    [(["in"], .directory), (["in", "Broken.dll"], .file brokenBytes),
      (["in", "Tool.dll"], .file (Image.wrap sampleBytes)), (["in", "out.cs.tmp"], .file ⟨#[0x6B]⟩)]
  distinct := by decide

/-- The output lies in the directory that is scanned, and the marks of the assembly are markers. -/
def crowdedConfig : Config where
  output? := some ⟨"in/out.cs"⟩
  markers := { ns := "Attributes", method := "Marker" }

/-- What the run over this directory reports. -/
def crowdedReport : Report where
  outputPath := ⟨"in/out.cs"⟩
  containers := 1
  aliases := 1
  skippedModules := [⟨"Broken.dll", .notAnImage⟩]
  skippedMembers := []

theorem candidates_crowdedTree : crowdedTree.candidates ⟨"in"⟩ =
    .ok [("Broken.dll", brokenBytes), ("Tool.dll", Image.wrap sampleBytes)] := by
  have hfiles : (crowdedTree.children ["in"]).filterMap candidate? =
      [("Broken.dll", brokenBytes), ("Tool.dll", Image.wrap sampleBytes)] := rfl
  refine candidates_eq_ok_iff.mpr ⟨["in"], by decide, rfl, ?_⟩
  rw [libraries, hfiles]
  exact (List.mergeSort_of_pairwise (by decide)).symm

theorem ofImage_broken : Assembly.ofImage .portable "Broken.dll" brokenBytes = .error .notAnImage :=
  rfl

/-- The assembly in the directory is opened. -/
theorem ofImage_tool : Assembly.ofImage .portable "Tool.dll" (Image.wrap sampleBytes) =
    .ok ⟨"Tool.dll", sampleBytes, sample strayAttribute⟩ := by
  rw [Assembly.ofImage_eq_ofMetadata HeaderReader.readsSections_portable
    HeaderReader.readsOptional_portable accepts_wrap_sampleBytes "Tool.dll"
    (by rw [size_sampleBytes]; decide) (by rw [size_sampleBytes]; decide), Assembly.ofMetadata,
    read_sampleBytes]
  rfl

theorem openCandidates_crowdedTree :
    openCandidates .portable [("Broken.dll", brokenBytes), ("Tool.dll", Image.wrap sampleBytes)] =
      ([⟨"Tool.dll", .ok sampleDefinitions⟩], [⟨"Broken.dll", .notAnImage⟩]) := by
  have hbroken : openCandidate .portable ("Broken.dll", brokenBytes) =
      .error ⟨"Broken.dll", .notAnImage⟩ := openCandidate_of_error ofImage_broken
  have htool : openCandidate .portable ("Tool.dll", Image.wrap sampleBytes) =
      .ok ⟨"Tool.dll", .ok sampleDefinitions⟩ :=
    (openCandidate_of_ok ofImage_tool).trans
      (congrArg (fun types => Except.ok (Module.mk "Tool.dll" types)) types_sample)
  simp only [openCandidates, List.map_cons, List.map_nil, hbroken, htool]
  rfl

/-- The run over this directory finds the alias in the assembly, and reports the other file. -/
theorem generate_crowdedTree :
    (crowdedConfig.generate .portable ⟨"in"⟩ crowdedTree).1 = .ok crowdedReport := by
  simp only [generate, candidates_crowdedTree, openCandidates_crowdedTree]
  decide +kernel

/-- The run destroys the file beside its output, and the one after it finds nothing to change. -/
theorem generate_again_crowded :
    (∀ name, crowdedConfig.outputPath.fileName? = some name → isLibraryName name = false) ∧
    (crowdedConfig.generate .portable ⟨"in"⟩ crowdedTree).1 = .ok crowdedReport ∧
    crowdedConfig.generate .portable ⟨"in"⟩
      (crowdedConfig.generate .portable ⟨"in"⟩ crowdedTree).2 =
      (.ok crowdedReport, (crowdedConfig.generate .portable ⟨"in"⟩ crowdedTree).2) := by
  have hname : ∀ name, crowdedConfig.outputPath.fileName? = some name →
      isLibraryName name = false := by
    intro name hname
    have hout : crowdedConfig.outputPath.fileName? = some "out.cs" := by decide
    rw [hout] at hname
    cases hname
    decide
  exact ⟨hname, generate_crowdedTree, (generate_again crowdedConfig .portable ⟨"in"⟩ crowdedTree
    hname (Prod.ext generate_crowdedTree rfl)).2⟩

end Config

end AliasStubs
