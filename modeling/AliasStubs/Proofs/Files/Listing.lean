import AliasStubs.Generation.Candidates
import AliasStubs.Proofs.Files.Rewrite
import Mathlib.Data.List.Sort

/-!
# What a directory lists

A tree keeps its entries in no particular order, and so does a directory. What a directory lists is
nevertheless determined by what stands at the places below it: no place has two entries, and the
candidates among them are put in the order of their names.

A write puts a file at its path and takes one away beside it. Neither is a candidate, unless the
path itself ends in the name of one. So a write outside the candidates leaves them as they are.

## Main definitions

* `FileTree.libraries` : the candidates in the directory at a place.

## Main results

* `FileTree.mem_libraries_iff`, `FileTree.pairwise_libraries` : what the candidates are and how they
  are ordered.
* `FileTree.libraries_eq` : **they depend on the places of candidates only**.
* `FileTree.candidates_write` : a write elsewhere does not change them.
-/

namespace AliasStubs

/-! ### Names of libraries -/

/-- A file in which content is gathered is no candidate. -/
theorem isLibraryName_tmp (name : String) : isLibraryName (name ++ ".tmp") = false := by
  have hparts : splitAtLast? '.' (name ++ ".tmp").toList = some (name.toList, "tmp".toList) := by
    rw [String.toList_append]
    exact splitAtLast?_append name.toList (by decide)
  rw [isLibraryName, extension?, hparts]
  cases name.toList with
  | nil => decide
  | cons c cs =>
      change decide (some ("tmp".toList.map Char.toLower) = some "dll".toList) = false
      decide

namespace FileTree

variable {t t' : FileTree} {place : List String} {name : String}

/-! ### The entries of a directory -/

/-- What is found at a place is what is entered there. -/
theorem get?_eq_some_iff {e : Entry} (h : place ≠ []) :
    t.get? place = some e ↔ (place, e) ∈ t.entries := by
  rw [get?, if_neg h, List.lookup_eq_some_iff]
  constructor
  · rintro ⟨before, after, heq, -⟩
    rw [heq]
    exact List.mem_append_right _ (List.mem_cons_self ..)
  · intro hmem
    obtain ⟨before, after, heq⟩ := List.append_of_mem hmem
    refine ⟨before, after, heq, fun other hother => ?_⟩
    have hdistinct := t.distinct
    rw [heq, List.pairwise_append] at hdistinct
    have hne := hdistinct.2.2 other hother _ (List.mem_cons_self ..)
    exact bne_iff_ne.mpr hne.symm

/-- The entries of a directory are those at the places of their names in it. -/
theorem mem_children_iff {e : Entry} :
    (name, e) ∈ t.children place ↔ t.get? (place ++ [name]) = some e := by
  rw [get?_eq_some_iff (by simp), children, List.mem_filterMap]
  constructor
  · rintro ⟨⟨q, e'⟩, hmem, hq⟩
    dsimp only at hq
    split at hq
    · rename_i hplace
      obtain ⟨last, hlast, heq⟩ := Option.map_eq_some_iff.mp hq
      obtain ⟨rfl, rfl⟩ := Prod.mk.inj heq
      rwa [← hplace, List.dropLast_append_getLast? _ hlast]
    · cases hq
  · intro hmem
    exact ⟨_, hmem, by simp⟩

/-- No name is listed twice. -/
theorem pairwise_children (t : FileTree) (place : List String) :
    (t.children place).Pairwise (·.1 ≠ ·.1) := by
  refine t.distinct.filterMap _ ?_
  rintro ⟨q, e⟩ ⟨q', e'⟩ hne entry hentry entry' hentry' heq
  dsimp only at hentry hentry'
  split at hentry
  · split at hentry'
    · rename_i hplace hplace'
      obtain ⟨last, hlast, rfl⟩ := Option.map_eq_some_iff.mp hentry
      obtain ⟨last', hlast', rfl⟩ := Option.map_eq_some_iff.mp hentry'
      change last = last' at heq
      change q ≠ q' at hne
      refine hne ?_
      rw [← List.dropLast_append_getLast? _ hlast, ← List.dropLast_append_getLast? _ hlast', hplace,
        hplace', heq]
    · cases hentry'
  · cases hentry

/-! ### Candidates -/

/-- The candidates in the directory at a place, in ascending order of their names. -/
def libraries (t : FileTree) (place : List String) : List (String × ByteArray) :=
  ((t.children place).filterMap candidate?).mergeSort fun a b => decide (a.1 ≤ b.1)

/-- The candidates of a path are those of the directory that it leads to. -/
theorem candidates_eq_ok_iff {p : FilePath} {found : List (String × ByteArray)} :
    t.candidates p = .ok found ↔ ∃ place, t.locate p = .ok place ∧
      t.get? place = some .directory ∧ found = t.libraries place := by
  unfold candidates list
  cases hlocate : t.locate p with
  | error e => simp [bind, Except.bind]
  | ok place =>
      simp only [bind, Except.bind]
      cases hget : t.get? place with
      | none => simp [hget, throw, throwThe, MonadExceptOf.throw]
      | some e =>
          cases e with
          | file bytes => simp [hget, throw, throwThe, MonadExceptOf.throw]
          | directory => simp [hget, pure, Except.pure, libraries, eq_comm]

/-- What an entry is as a candidate. -/
theorem candidate?_eq_some_iff {entry : String × Entry} {bytes : ByteArray} :
    candidate? entry = some (name, bytes) ↔
      isLibraryName name = true ∧ entry = (name, .file bytes) := by
  rcases entry with ⟨name', _ | bytes'⟩
  · simp [candidate?]
  · rw [candidate?]
    constructor
    · intro h
      split at h
      · cases h
        exact ⟨‹_›, rfl⟩
      · cases h
    · rintro ⟨hname, heq⟩
      cases heq
      exact if_pos hname

/-- **What the candidates are**: the files in the directory that have the extension. -/
theorem mem_libraries_iff {bytes : ByteArray} :
    (name, bytes) ∈ t.libraries place ↔
      isLibraryName name = true ∧ t.get? (place ++ [name]) = some (.file bytes) := by
  rw [libraries, List.mem_mergeSort, List.mem_filterMap]
  constructor
  · rintro ⟨entry, hmem, hentry⟩
    obtain ⟨hname, rfl⟩ := candidate?_eq_some_iff.mp hentry
    exact ⟨hname, mem_children_iff.mp hmem⟩
  · rintro ⟨hname, hget⟩
    exact ⟨_, mem_children_iff.mpr hget, candidate?_eq_some_iff.mpr ⟨hname, rfl⟩⟩

/-- **How the candidates are ordered**: strictly by name. -/
theorem pairwise_libraries (t : FileTree) (place : List String) :
    (t.libraries place).Pairwise (·.1 < ·.1) := by
  have hsorted : (t.libraries place).Pairwise (·.1 ≤ ·.1) := by
    refine (List.pairwise_mergeSort ?_ ?_ _).imp of_decide_eq_true
    · intro a b c hab hbc
      exact decide_eq_true (String.le_trans (of_decide_eq_true hab) (of_decide_eq_true hbc))
    · intro a b
      rcases String.le_total a.1 b.1 with h | h <;> simp [h]
  have hdistinct : (t.libraries place).Pairwise (·.1 ≠ ·.1) := by
    refine ((List.mergeSort_perm _ _).pairwise_iff Ne.symm).mpr ?_
    refine (t.pairwise_children place).filterMap _ ?_
    rintro entry entry' hne ⟨name, bytes⟩ h ⟨name', bytes'⟩ h'
    obtain ⟨-, rfl⟩ := candidate?_eq_some_iff.mp h
    obtain ⟨-, rfl⟩ := candidate?_eq_some_iff.mp h'
    exact hne
  refine (hsorted.and hdistinct).imp ?_
  rintro a b ⟨hle, hne⟩
  exact String.not_le.mp fun hge => hne (String.le_antisymm hle hge)

/-- Lists that ascend strictly by name are the same if they have the same members. -/
theorem eq_of_pairwise_name {α : Type} {l l' : List (String × α)} (h : l.Pairwise (·.1 < ·.1))
    (h' : l'.Pairwise (·.1 < ·.1)) (hmem : ∀ a, a ∈ l ↔ a ∈ l') : l = l' := by
  have : Std.Irrefl fun a b : String × α => a.1 < b.1 := ⟨fun a => String.lt_irrefl a.1⟩
  have : Std.Antisymm fun a b : String × α => a.1 < b.1 :=
    ⟨fun a b hab hba => absurd (String.lt_trans hab hba) (String.lt_irrefl a.1)⟩
  exact h.eq_of_mem_iff h' hmem

/-- **The candidates depend on their own places only.** -/
theorem libraries_eq (h : ∀ name, isLibraryName name = true →
    t'.get? (place ++ [name]) = t.get? (place ++ [name])) :
    t'.libraries place = t.libraries place := by
  refine eq_of_pairwise_name (t'.pairwise_libraries place) (t.pairwise_libraries place) ?_
  rintro ⟨name, bytes⟩
  rw [mem_libraries_iff, mem_libraries_iff]
  exact and_congr_right fun hname => by rw [h name hname]

/-! ### Candidates and writes -/

/-- The steps beside a path do not lead to where a candidate stands. -/
theorem follow_temporary_ne {p : FilePath} (hname : isLibraryName name = true) :
    t.follow (temporary p) ≠ .ok (place ++ [name]) := by
  intro h
  obtain ⟨dir, other, htmp, -⟩ := foldl_temporary p
  rw [← eq_foldl_of_followFrom h] at htmp
  obtain ⟨-, hlast⟩ := List.append_inj' htmp rfl
  rw [(List.cons.inj hlast).1, isLibraryName_tmp] at hname
  cases hname

/-- The file beside a path does not stand where a candidate does. -/
theorem filePlace?_temporary_ne {p : FilePath} (hname : isLibraryName name = true) :
    t.filePlace? (temporary p) ≠ some (place ++ [name]) := by
  intro h
  unfold filePlace? at h
  split at h
  · cases h
  · rename_i beside hfollow
    split at h
    · cases h
      exact follow_temporary_ne hname hfollow
    · cases h

/-- **A write elsewhere does not change the candidates**: the file beside the path is none, and the
path ends in no name of one. -/
theorem candidates_write {p directory : FilePath} {found : List (String × ByteArray)}
    (hname : ∀ name, p.fileName? = some name → isLibraryName name = false)
    (h : t.candidates directory = .ok found) (bytes : ByteArray) :
    (t.write p bytes).2.candidates directory = .ok found := by
  obtain ⟨place, hlocate, hget, rfl⟩ := candidates_eq_ok_iff.mp h
  have hdirs := sameDirectories_write t p bytes
  refine candidates_eq_ok_iff.mpr ⟨place, hdirs.locate_eq_ok_iff.mpr hlocate,
    (hdirs place).mpr hget, (libraries_eq fun name hlibrary => ?_).symm⟩
  have hbeside : t.filePlace? (temporary p) ≠ some (place ++ [name]) :=
    filePlace?_temporary_ne hlibrary
  rcases hwrite : t.write p bytes with ⟨e | ⟨⟩, left⟩
  · have hget := get?_write_of_not_isOk t p bytes (by rw [hwrite]; rfl) (place ++ [name])
    rwa [hwrite, if_neg hbeside] at hget
  · obtain ⟨beside, output, hwritable⟩ := writable_of_write hwrite
    obtain ⟨dir, other, hother, rfl⟩ := hwritable.exists_fileName
    have hne : t.locate p ≠ .ok (place ++ [name]) := by
      intro heq
      rw [hwritable.locate_eq] at heq
      obtain ⟨-, hlast⟩ := List.append_inj' (Except.ok.inj heq) rfl
      rw [← (List.cons.inj hlast).1, hname other hother] at hlibrary
      cases hlibrary
    have hget := get?_write t p bytes hne
    rwa [hwrite, if_neg hbeside] at hget

end FileTree

end AliasStubs
