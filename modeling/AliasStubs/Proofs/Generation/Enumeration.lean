import AliasStubs.Proofs.Files.Order
import AliasStubs.Proofs.Generation.Repetition
import AliasStubs.Proofs.Text.Utf8

/-!
# The order of a directory does not matter

A directory is listed in whatever order it keeps its entries. The candidates among them are put in
the order of their names before anything else is done, and no two entries have one name, so a run
never sees the order of the directory: it scans the same modules one after the other, finds the same
classes in the same order, and writes the same text.

## Main definitions

* `HasLibraryExtension` : a name ends in the extension `dll`, in letters of either case.
* `FileTree.ListsAt` : a path leads to a directory.

## Main results

* `isLibraryName_iff` : the names that are looked for are those with the extension.
* `FileTree.candidates_eq_ok_iff_pairwise` : the candidates are the files with such names, in the
  order of the bytes of their names.
* `Config.generate_enumerated` : **that, and a run does not depend on the order of a directory**.
-/

namespace AliasStubs

open FileTree Text

/-! ### Names with the extension -/

/-- A name has the extension `dll`, in letters of either case: this is what stands behind its last
point, and something stands in front of the point. -/
def HasLibraryExtension (name : String) : Prop :=
  ∃ stem ext : String, name = stem ++ "." ++ ext ∧ stem ≠ "" ∧ '.' ∉ ext.toList ∧
    ext.toList.map Char.toLower = "dll".toList

theorem toList_append_point (stem ext : String) :
    (stem ++ "." ++ ext).toList = stem.toList ++ '.' :: ext.toList := by
  rw [String.toList_append, String.toList_append, List.append_assoc]
  rfl

/-- An extension is what stands behind the last point, if something stands in front of it. -/
theorem extension?_eq_some_iff {name ext : String} : extension? name = some ext ↔
    ∃ stem : String, name = stem ++ "." ++ ext ∧ stem ≠ "" ∧ '.' ∉ ext.toList := by
  constructor
  · intro h
    unfold extension? at h
    split at h
    · rename_i c before after hparts
      cases h
      obtain ⟨hname, hfree⟩ := splitAtLast?_eq_some_iff.mp hparts
      refine ⟨String.ofList (c :: before), String.toList_inj.mp ?_, ?_, ?_⟩
      · rw [hname, toList_append_point, String.toList_ofList, String.toList_ofList]
      · intro hempty
        have hnil := congrArg String.toList hempty
        rw [String.toList_ofList] at hnil
        exact absurd hnil (List.cons_ne_nil _ _)
      · rwa [String.toList_ofList]
    · cases h
  · rintro ⟨stem, rfl, hstem, hfree⟩
    obtain ⟨c, before, hbefore⟩ := List.exists_cons_of_ne_nil (mt String.toList_eq_nil_iff.mp hstem)
    rw [extension?, toList_append_point, splitAtLast?_append _ hfree, hbefore]
    exact congrArg some String.ofList_toList

/-- **The names that are looked for** are those with the extension. -/
theorem isLibraryName_iff {name : String} :
    isLibraryName name = true ↔ HasLibraryExtension name := by
  rw [isLibraryName, decide_eq_true_eq, Option.map_eq_some_iff]
  constructor
  · rintro ⟨ext, hext, hlower⟩
    obtain ⟨stem, hname, hstem, hfree⟩ := extension?_eq_some_iff.mp hext
    exact ⟨stem, ext, hname, hstem, hfree, hlower⟩
  · rintro ⟨stem, ext, hname, hstem, hfree, hlower⟩
    exact ⟨ext, extension?_eq_some_iff.mpr ⟨stem, hname, hstem, hfree⟩, hlower⟩

/-! ### What is listed -/

namespace FileTree

variable {t t' : FileTree} {p p' : FilePath} {place place' : List String}
  {found : List (String × ByteArray)}

/-- A path leads to the directory at a place. -/
structure ListsAt (t : FileTree) (p : FilePath) (place : List String) : Prop where
  locate_eq : t.locate p = .ok place
  get?_eq : t.get? place = some .directory

theorem ListsAt.candidates_eq (h : t.ListsAt p place) :
    t.candidates p = .ok (t.libraries place) :=
  candidates_eq_ok_iff.mpr ⟨place, h.locate_eq, h.get?_eq, rfl⟩

/-- **The candidates are the files with the extension**, each once, in the order of the bytes of
their names. -/
theorem candidates_eq_ok_iff_pairwise : t.candidates p = .ok found ↔
    ∃ place, t.ListsAt p place ∧ found.Pairwise (fun a b => bytes a.1 < bytes b.1) ∧
      ∀ name content, (name, content) ∈ found ↔
        HasLibraryExtension name ∧ t.get? (place ++ [name]) = some (.file content) := by
  simp only [← isLibraryName_iff, bytes_lt_bytes_iff]
  constructor
  · intro h
    obtain ⟨place, hlocate, hget, rfl⟩ := candidates_eq_ok_iff.mp h
    exact ⟨place, ⟨hlocate, hget⟩, t.pairwise_libraries place, fun _ _ => mem_libraries_iff⟩
  · rintro ⟨place, hlists, hpairwise, hmem⟩
    rw [hlists.candidates_eq]
    refine congrArg Except.ok (eq_of_pairwise_name (t.pairwise_libraries place) hpairwise ?_)
    rintro ⟨name, content⟩
    rw [hmem, mem_libraries_iff]

/-- Directories with the same entries in any order have the same candidates. -/
theorem ListsAt.candidates_eq_of_perm (h : t.ListsAt p place) (h' : t'.ListsAt p' place')
    (hperm : (t'.children place').Perm (t.children place)) : t'.candidates p' = t.candidates p := by
  rw [h.candidates_eq, h'.candidates_eq, libraries_eq_of_perm hperm]

end FileTree

namespace Config

variable {c : Config} {headers? : HeaderReader} {t t' left : FileTree} {p : FilePath} {r : Report}
  {found : List (String × ByteArray)}

/-! ### What a run makes of it -/

/-- A run that succeeds has written what the candidates tell, and reports no more than this. -/
theorem eq_of_generate (hfound : t.candidates p = .ok found)
    (h : c.generate headers? p t = (.ok r, left)) :
    r = { c.report (scan c.markers (openCandidates headers? found).1) with
      skippedModules := (openCandidates headers? found).2 ++
        (scan c.markers (openCandidates headers? found).1).moduleFailures } ∧
    left.lookup? c.outputPath =
      some (.file (c.stubs (scan c.markers (openCandidates headers? found).1)).toUTF8) := by
  obtain ⟨found', bare, hfound', hrun, rfl⟩ := generate_eq_ok_iff.mp h
  obtain rfl : found' = found := by
    rw [hfound] at hfound'
    exact (Except.ok.inj hfound').symm
  obtain ⟨hwrite, rfl⟩ := generateFrom_eq_ok_iff.mp hrun
  exact ⟨rfl, lookup?_of_write hwrite⟩

/-- Runs over the same modules come to the same in alike trees, and leave alike trees. -/
theorem generateFrom_of_alike (h : Alike t t') (c : Config) (modules : List Module) :
    (c.generateFrom modules t').1 = (c.generateFrom modules t).1 ∧
      Alike (c.generateFrom modules t).2 (c.generateFrom modules t').2 := by
  obtain ⟨houtcome, hleft⟩ := h.write c.outputPath (c.stubs (scan c.markers modules)).toUTF8
  rw [generateFrom, generateFrom]
  generalize t.write c.outputPath (c.stubs (scan c.markers modules)).toUTF8 = run at *
  generalize t'.write c.outputPath (c.stubs (scan c.markers modules)).toUTF8 = run' at *
  obtain ⟨outcome, left⟩ := run
  obtain ⟨outcome', left'⟩ := run'
  obtain rfl : outcome' = outcome := houtcome
  rcases outcome' with e | done
  · exact ⟨rfl, hleft⟩
  · exact ⟨rfl, hleft⟩

/-- **Runs over alike trees are alike**: they come to the same, and leave alike trees. -/
theorem generate_of_alike (h : Alike t t') (c : Config) (headers? : HeaderReader) (p : FilePath) :
    (c.generate headers? p t').1 = (c.generate headers? p t).1 ∧
      Alike (c.generate headers? p t).2 (c.generate headers? p t').2 := by
  rw [generate, generate, h.candidates_eq]
  rcases t.candidates p with e | found
  · exact ⟨rfl, h⟩
  obtain ⟨houtcome, hleft⟩ := generateFrom_of_alike h c (openCandidates headers? found).1
  simp only
  generalize c.generateFrom (openCandidates headers? found).1 t = run at *
  generalize c.generateFrom (openCandidates headers? found).1 t' = run' at *
  obtain ⟨outcome, left⟩ := run
  obtain ⟨outcome', left'⟩ := run'
  obtain rfl : outcome' = outcome := houtcome
  rcases outcome' with e | r
  · exact ⟨rfl, hleft⟩
  · exact ⟨rfl, hleft⟩

/-! ### Main result -/

/-- **A run does not depend on the order of a directory.** The candidates of a directory are its
files with the extension, each once, in the order of the bytes of their names. So directories with
the same entries in any order have the same candidates, and runs over them that succeed report the
same and write the same text, which is that of the modules in these candidates. And a run over a
tree with the same entries in any order comes to the same, also if it fails, and leaves the same at
every place. None of this depends on how assemblies are opened. -/
theorem generate_enumerated :
    (∀ (t : FileTree) p found, t.candidates p = .ok found ↔
      ∃ place, t.ListsAt p place ∧ found.Pairwise (fun a b => bytes a.1 < bytes b.1) ∧
        ∀ name content, (name, content) ∈ found ↔
          HasLibraryExtension name ∧ t.get? (place ++ [name]) = some (.file content)) ∧
    (∀ (t t' : FileTree) p p' place place', t.ListsAt p place → t'.ListsAt p' place' →
      (t'.children place').Perm (t.children place) → ∃ found, t.candidates p = .ok found ∧
        t'.candidates p' = .ok found ∧ ∀ (c : Config) (headers? : HeaderReader) r r' left left',
          c.generate headers? p t = (.ok r, left) → c.generate headers? p' t' = (.ok r', left') →
            r' = r ∧
            left.lookup? c.outputPath =
              some (.file (c.stubs (scan c.markers (openCandidates headers? found).1)).toUTF8) ∧
            left'.lookup? c.outputPath = left.lookup? c.outputPath) ∧
    ∀ (t t' : FileTree), t'.entries.Perm t.entries → ∀ (c : Config) (headers? : HeaderReader) p,
      (c.generate headers? p t').1 = (c.generate headers? p t).1 ∧
        ∀ place, (c.generate headers? p t').2.get? place =
          (c.generate headers? p t).2.get? place := by
  refine ⟨fun t p found => candidates_eq_ok_iff_pairwise, ?_,
    fun t t' hperm c headers? p => generate_of_alike (alike_of_perm hperm) c headers? p⟩
  intro t t' p p' place place' hlists hlists' hperm
  have hfound := hlists.candidates_eq
  have hfound' := (hlists.candidates_eq_of_perm hlists' hperm).trans hfound
  refine ⟨_, hfound, hfound', fun c headers? r r' left left' h h' => ?_⟩
  obtain ⟨hreport, htext⟩ := eq_of_generate hfound h
  obtain ⟨hreport', htext'⟩ := eq_of_generate hfound' h'
  exact ⟨hreport'.trans hreport.symm, htext, htext'.trans htext.symm⟩

/-- A directory with two files that have the extension and several entries that do not count. -/
def mixedTree : FileTree where
  entries :=
    [(["in"], .directory), (["in", "b.dll"], .file (Image.wrap sampleBytes)),
      (["in", "A.DLL"], .file ⟨#[]⟩), (["in", "a.Dll.config"], .file ⟨#[]⟩),
      (["in", ".dll"], .file ⟨#[]⟩), (["in", "nested.dll"], .directory)]
  distinct := by decide

/-- The same entries in the other order. -/
def mixedTreeReversed : FileTree where
  entries := mixedTree.entries.reverse
  distinct := by decide

/-- A name in capitals counts, a directory does not, and the run comes to the same in either
order. -/
theorem generate_enumerated_mixed :
    (∃ found, mixedTree.candidates ⟨"in"⟩ = .ok found ∧
      mixedTreeReversed.candidates ⟨"in"⟩ = .ok found ∧ ("A.DLL", ⟨#[]⟩) ∈ found ∧
      ∀ content, ("nested.dll", content) ∉ found) ∧
    (crowdedConfig.generate .portable ⟨"in"⟩ mixedTreeReversed).1 =
      (crowdedConfig.generate .portable ⟨"in"⟩ mixedTree).1 := by
  obtain ⟨hlisted, hdirectories, htrees⟩ := generate_enumerated
  have hperm : mixedTreeReversed.entries.Perm mixedTree.entries := List.reverse_perm _
  have hlists : mixedTree.ListsAt ⟨"in"⟩ ["in"] := ⟨by decide, rfl⟩
  have hlists' : mixedTreeReversed.ListsAt ⟨"in"⟩ ["in"] := ⟨by decide, rfl⟩
  have hchildren : (mixedTreeReversed.children ["in"]).Perm (mixedTree.children ["in"]) :=
    hperm.filterMap _
  obtain ⟨found, hfound, hfound', -⟩ := hdirectories _ _ _ _ _ _ hlists hlists' hchildren
  obtain ⟨place, ⟨hlocate, -⟩, -, hmem⟩ := (hlisted _ _ _).mp hfound
  obtain rfl : ["in"] = place := Except.ok.inj (hlists.locate_eq.symm.trans hlocate)
  refine ⟨⟨found, hfound, hfound', (hmem _ _).mpr ⟨?_, rfl⟩, fun content h => ?_⟩,
    (htrees _ _ hperm crowdedConfig .portable ⟨"in"⟩).1⟩
  · exact ⟨"A", "DLL", by decide, by decide, by decide, by decide⟩
  · cases ((hmem _ _).mp h).2

end Config

end AliasStubs
