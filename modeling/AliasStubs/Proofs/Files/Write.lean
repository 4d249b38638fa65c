import AliasStubs.Files.Tree

/-!
# What a write changes

A file is written through another one beside it: the content is gathered there, and the file is
moved to its path when it is complete. Paths are followed through directories only, and a write
neither makes nor removes a directory, so every path leads to the same place before, during and
after it. Two places are concerned at all: the one that the path leads to, and the one beside it.

Whatever the tree holds, a write ends in one of three ways (`write_cases`). Either the file beside
the path cannot be made, and the tree stays as it is; or it is made, cannot be moved, and is
discarded; or it is made and moved. In the last two cases a file that stood beside the path before
is lost.

## Main definitions

* `FileTree.lookup?` : what stands at a path.
* `FileTree.filePlace?` : the place of the file that steps lead to.
* `FileTree.SameDirectories` : two trees have their directories at the same places.

## Main results

* `FileTree.write_cases` : everything that a write can do.
* `FileTree.lookup?_write` : the path holds the new content, or what it held before.
* `FileTree.filePlace?_write` : no file is left beside the path.
* `FileTree.get?_write` : what every other place holds after a write.
-/

namespace AliasStubs

namespace FileTree

/-- What stands at a path, if it leads anywhere. -/
def lookup? (t : FileTree) (p : FilePath) : Option Entry :=
  match t.locate p with
  | .ok place => t.get? place
  | .error _ => none

/-- The place of the file that steps lead to, if they lead to one. -/
def filePlace? (t : FileTree) (steps : List String) : Option (List String) :=
  match t.follow steps with
  | .error _ => none
  | .ok place =>
    match t.get? place with
    | some (.file _) => some place
    | _ => none

/-- Two trees have their directories at the same places. -/
def SameDirectories (t t' : FileTree) : Prop :=
  ∀ place, t'.get? place = some .directory ↔ t.get? place = some .directory

variable {t t' : FileTree} {p : FilePath} {bytes : ByteArray}

/-! ### Where paths lead -/

/-- Steps that can be followed lead to the place that they spell. -/
theorem eq_foldl_of_followFrom {place place' steps : List String}
    (h : t.followFrom place steps = .ok place') : place' = steps.foldl stepFrom place := by
  induction steps generalizing place with
  | nil =>
      rw [followFrom] at h
      exact (Except.ok.inj h).symm
  | cons step steps ih =>
      rw [followFrom] at h
      split at h
      · cases h
      · cases h
      · exact ih h

/-- Steps can be followed in every tree that has all directories on the way. -/
theorem followFrom_mono (hdirs : ∀ place, t.get? place = some .directory →
    t'.get? place = some .directory) {place place' steps : List String}
    (h : t.followFrom place steps = .ok place') : t'.followFrom place steps = .ok place' := by
  induction steps generalizing place with
  | nil => exact h
  | cons step steps ih =>
      rw [followFrom] at h
      split at h
      · cases h
      · cases h
      · rename_i hget
        rw [followFrom, hdirs place hget]
        exact ih h

theorem SameDirectories.trans {t'' : FileTree} (h : SameDirectories t t')
    (h' : SameDirectories t' t'') : SameDirectories t t'' :=
  fun place => (h' place).trans (h place)

/-- Steps lead to the same place in two trees with the same directories. -/
theorem SameDirectories.follow_eq_ok_iff (h : SameDirectories t t') {steps place : List String} :
    t'.follow steps = .ok place ↔ t.follow steps = .ok place :=
  ⟨followFrom_mono fun q => (h q).mp, followFrom_mono fun q => (h q).mpr⟩

/-- A path leads to the same place in two trees with the same directories. -/
theorem SameDirectories.locate_eq_ok_iff (h : SameDirectories t t') {place : List String} :
    t'.locate p = .ok place ↔ t.locate p = .ok place := by
  unfold locate
  split
  · rfl
  · exact h.follow_eq_ok_iff

/-! ### A path and the file beside it -/

/-- Steps that stay where they are do not count. -/
theorem foldl_stepFrom_movingSteps (steps place : List String) :
    (steps.filter (· ≠ ".")).foldl stepFrom place = steps.foldl stepFrom place := by
  induction steps generalizing place with
  | nil => rfl
  | cons step steps ih =>
      by_cases h : step = "."
      · rw [List.filter_cons_of_neg (by simpa using h), List.foldl_cons, ih, stepFrom, if_pos h]
      · rw [List.filter_cons_of_pos (by simpa using h), List.foldl_cons, List.foldl_cons, ih]

/-- A step that is a name leads to the place of this name. -/
theorem stepFrom_of_ne {place : List String} {name : String} (h : name ≠ ".") (h' : name ≠ "..") :
    stepFrom place name = place ++ [name] := by
  rw [stepFrom, if_neg h, if_neg h']

/-- The ending of the file beside a path makes its name differ from every short one. -/
theorem append_tmp_ne {name other : String} (h : other.length < 4) : name ++ ".tmp" ≠ other := by
  intro heq
  have hlen := congrArg String.length heq
  rw [String.length_append] at hlen
  have htmp : ".tmp".length = 4 := rfl
  omega

theorem append_tmp_ne_self (name : String) : name ++ ".tmp" ≠ name := by
  intro heq
  have hlen := congrArg String.length heq
  rw [String.length_append] at hlen
  have htmp : ".tmp".length = 4 := rfl
  omega

/-- A step to the file beside a path is a step to its name. -/
theorem stepFrom_tmp (place : List String) (name : String) :
    stepFrom place (name ++ ".tmp") = place ++ [name ++ ".tmp"] :=
  stepFrom_of_ne (append_tmp_ne (by decide)) (append_tmp_ne (by decide))

/-- A path that ends in a name is the way to its directory and the name. -/
theorem steps_of_fileName? {name : String} (h : p.fileName? = some name) :
    p.movingSteps = p.movingSteps.dropLast ++ [name] ∧ name ≠ "." ∧ name ≠ ".." := by
  rw [FilePath.fileName?, Option.filter_eq_some_iff] at h
  obtain ⟨hlast, hup⟩ := h
  have hmem := List.mem_of_getLast? hlast
  rw [FilePath.movingSteps, List.mem_filter] at hmem
  refine ⟨?_, by simpa using hmem.2, by simpa using hup⟩
  rw [List.getLast?_eq_some_iff] at hlast
  obtain ⟨init, hinit⟩ := hlast
  rw [hinit, List.dropLast_concat]

/-- **The file beside a path stands in the same directory under another name**, or in the directory
that the path itself leads to if it ends in no name. -/
theorem foldl_temporary (p : FilePath) :
    ∃ place name, (temporary p).foldl stepFrom [] = place ++ [name ++ ".tmp"] ∧
      (p.steps.foldl stepFrom [] = place ++ [name] ∨ p.steps.foldl stepFrom [] = place) := by
  rw [temporary, FilePath.sibling]
  cases hname : p.fileName? with
  | some name =>
      obtain ⟨hsteps, hdot, hup⟩ := steps_of_fileName? hname
      refine ⟨p.movingSteps.dropLast.foldl stepFrom [], name, ?_, .inl ?_⟩
      · rw [List.foldl_append, List.foldl_cons, List.foldl_nil]
        exact stepFrom_tmp _ _
      · rw [← foldl_stepFrom_movingSteps]
        change p.movingSteps.foldl stepFrom [] = _
        rw [hsteps, List.foldl_append, List.foldl_cons, List.foldl_nil, List.dropLast_concat]
        exact stepFrom_of_ne hdot hup
  | none =>
      refine ⟨p.steps.foldl stepFrom [], "", ?_, .inr rfl⟩
      rw [List.foldl_append, List.foldl_cons, List.foldl_nil]
      exact stepFrom_tmp _ _

/-- The place beside a path is not the one where the tree stands. -/
theorem ne_nil_of_follow_temporary {place : List String}
    (h : t.follow (temporary p) = .ok place) : place ≠ [] := by
  obtain ⟨dir, name, htmp, -⟩ := foldl_temporary p
  rw [eq_foldl_of_followFrom h, htmp]
  exact List.append_ne_nil_of_right_ne_nil _ (List.cons_ne_nil _ _)

/-- A path does not lead to the place beside it. -/
theorem ne_of_follow_temporary {place place' : List String} (h : t.locate p = .ok place)
    (h' : t.follow (temporary p) = .ok place') : place ≠ place' := by
  have hplace : place = p.steps.foldl stepFrom [] := by
    unfold locate at h
    split at h
    · cases h
    · exact eq_foldl_of_followFrom h
  obtain ⟨dir, name, htmp, hpath⟩ := foldl_temporary p
  rw [hplace, eq_foldl_of_followFrom h', htmp]
  rcases hpath with hpath | hpath <;> rw [hpath]
  · intro heq
    have hlast := (List.append_inj' heq rfl).2
    exact append_tmp_ne_self name (List.cons.inj hlast).1.symm
  · intro heq
    have hlen := congrArg List.length heq
    rw [List.length_append] at hlen
    simp at hlen

/-! ### Changes of files -/

/-- What stands at each place after a change of one. -/
theorem get?_set_of_ne_nil {place : List String} (e : Entry) (h : place ≠ []) (q : List String) :
    (t.set place e).get? q = if q = place then some e else t.get? q := by
  by_cases hq : q = []
  · subst hq
    rw [get?_nil, get?_nil, if_neg h.symm]
  · exact t.get?_set e hq

/-- What stands at each place after one is cleared. -/
theorem get?_erase_of_ne_nil {place : List String} (h : place ≠ []) (q : List String) :
    (t.erase place).get? q = if q = place then none else t.get? q := by
  by_cases hq : q = []
  · subst hq
    rw [get?_nil, get?_nil, if_neg h.symm]
  · exact t.get?_erase hq

/-- A file in place of a file, or of nothing, leaves all directories as they are. -/
theorem sameDirectories_set {place : List String} (h : place ≠ [])
    (hget : t.get? place ≠ some .directory) : SameDirectories t (t.set place (.file bytes)) := by
  intro q
  rw [get?_set_of_ne_nil _ h]
  split
  · rename_i hq
    subst hq
    exact ⟨nofun, fun h => absurd h hget⟩
  · rfl

/-- Nothing in place of a file, or of nothing, leaves all directories as they are. -/
theorem sameDirectories_erase {place : List String} (h : place ≠ [])
    (hget : t.get? place ≠ some .directory) : SameDirectories t (t.erase place) := by
  intro q
  rw [get?_erase_of_ne_nil h]
  split
  · rename_i hq
    subst hq
    exact ⟨nofun, fun h => absurd h hget⟩
  · rfl

/-- The directory that the tree stands in is no place for a file. -/
theorem ne_nil_of_get?_ne {place : List String} (h : t.get? place ≠ some .directory) :
    place ≠ [] := by
  rintro rfl
  exact h (get?_nil t)

/-! ### What a write does -/

/-- A file is put where steps lead, unless they lead nowhere or to a directory. -/
theorem create_cases (t : FileTree) (steps : List String) (bytes : ByteArray) :
    (∃ e, t.create steps bytes = .error e ∧ t.discard steps = t ∧ t.filePlace? steps = none) ∨
    ∃ place, t.follow steps = .ok place ∧ t.get? place ≠ some .directory ∧
      t.create steps bytes = .ok (t.set place (.file bytes)) := by
  unfold create discard filePlace?
  cases hfollow : t.follow steps with
  | error e => exact .inl ⟨e, rfl, rfl, rfl⟩
  | ok place =>
      simp only [bind, Except.bind]
      cases hget : t.get? place with
      | none => exact .inr ⟨place, rfl, by simp [hget], rfl⟩
      | some e =>
          cases e with
          | directory => exact .inl ⟨.isADirectory, rfl, rfl, rfl⟩
          | file old => exact .inr ⟨place, rfl, by simp [hget], rfl⟩

/-- A file is moved to where a path leads, unless it leads nowhere or to a directory. -/
theorem move_cases {source steps : List String} (hfollow : t.follow steps = .ok source)
    (hget : t.get? source = some (.file bytes)) (p : FilePath) :
    (∃ e, t.move steps p = .error e) ∨
    ∃ place, t.locate p = .ok place ∧ t.get? place ≠ some .directory ∧
      t.move steps p = .ok ((t.erase source).set place (.file bytes)) := by
  unfold move bytesAt
  rw [hfollow]
  simp only [bind, Except.bind, hget]
  cases hlocate : t.locate p with
  | error e => exact .inl ⟨e, rfl⟩
  | ok place =>
      by_cases hslash : p.endsInSlash = true
      · exact .inl ⟨.notADirectory, by simp only [hslash, if_true]; rfl⟩
      · simp only [hslash]
        cases hplace : t.get? place with
        | none => exact .inr ⟨place, rfl, by simp [hplace], rfl⟩
        | some e =>
            cases e with
            | directory => exact .inl ⟨.isADirectory, rfl⟩
            | file old => exact .inr ⟨place, rfl, by simp [hplace], rfl⟩

/-- What is known of the places of a write whose file beside the path can be made. -/
structure Gathering (t : FileTree) (p : FilePath) (beside : List String) : Prop where
  follow_eq : t.follow (temporary p) = .ok beside
  get?_ne : t.get? beside ≠ some .directory

namespace Gathering

variable {beside : List String}

theorem ne_nil (h : Gathering t p beside) : beside ≠ [] :=
  ne_nil_of_follow_temporary h.follow_eq

/-- The tree in which the content has been gathered, and the file beside the path is taken away
again. -/
theorem get?_cleared (h : Gathering t p beside) (bytes : ByteArray) (q : List String) :
    ((t.set beside (.file bytes)).erase beside).get? q = if q = beside then none else t.get? q := by
  rw [get?_erase_of_ne_nil h.ne_nil, get?_set_of_ne_nil _ h.ne_nil]
  split <;> rfl

/-- It has all directories of the tree before. -/
theorem sameDirectories_cleared (h : Gathering t p beside) (bytes : ByteArray) :
    SameDirectories t ((t.set beside (.file bytes)).erase beside) := by
  refine (sameDirectories_set h.ne_nil h.get?_ne).trans (sameDirectories_erase h.ne_nil ?_)
  rw [get?_set_of_ne_nil _ h.ne_nil, if_pos rfl]
  exact nofun

/-- So has the tree in which the file has been moved to its path. -/
theorem sameDirectories_moved (h : Gathering t p beside) (bytes : ByteArray) {place : List String}
    (hplace : t.get? place ≠ some .directory) :
    SameDirectories t
      (((t.set beside (.file bytes)).erase beside).set place (.file bytes)) := by
  have hcleared := h.sameDirectories_cleared bytes
  refine hcleared.trans (sameDirectories_set (ne_nil_of_get?_ne hplace) ?_)
  exact fun hdir => hplace ((hcleared place).mp hdir)

end Gathering

/-- **Everything that a write can do.** -/
theorem write_cases (t : FileTree) (p : FilePath) (bytes : ByteArray) :
    (∃ e, t.write p bytes = (.error e, t) ∧ t.filePlace? (temporary p) = none) ∨
    ∃ beside, Gathering t p beside ∧
      ((∃ e, t.write p bytes = (.error e, (t.set beside (.file bytes)).erase beside)) ∨
       ∃ place, t.locate p = .ok place ∧ t.get? place ≠ some .directory ∧ t.write p bytes =
        (.ok (), ((t.set beside (.file bytes)).erase beside).set place (.file bytes))) := by
  unfold write
  rcases create_cases t (temporary p) bytes with ⟨e, hcreate, hdiscard, hplace⟩ |
    ⟨beside, hfollow, hget, hcreate⟩
  · rw [hcreate, hdiscard]
    exact .inl ⟨e, rfl, hplace⟩
  · have hgathering : Gathering t p beside := ⟨hfollow, hget⟩
    have hdirs : SameDirectories t (t.set beside (.file bytes)) :=
      sameDirectories_set hgathering.ne_nil hget
    have hfollow' := hdirs.follow_eq_ok_iff.mpr hfollow
    have hfile : (t.set beside (.file bytes)).get? beside = some (.file bytes) := by
      rw [get?_set_of_ne_nil _ hgathering.ne_nil, if_pos rfl]
    refine .inr ⟨beside, hgathering, ?_⟩
    rw [hcreate]
    rcases move_cases hfollow' hfile p with ⟨e, hmove⟩ | ⟨place, hlocate, hplace, hmove⟩
    · refine .inl ⟨e, ?_⟩
      simp only [hmove, discard, hfollow', hfile]
    · refine .inr ⟨place, hdirs.locate_eq_ok_iff.mp hlocate, ?_, ?_⟩
      · exact fun h => hplace ((hdirs place).mpr h)
      · simp only [hmove]

/-- **All or nothing.** After a write that succeeds the path holds the new content, and after one
that fails it holds what it held before. -/
theorem lookup?_write (t : FileTree) (p : FilePath) (bytes : ByteArray) :
    (t.write p bytes).2.lookup? p =
      if (t.write p bytes).1.isOk then some (.file bytes) else t.lookup? p := by
  rcases write_cases t p bytes with ⟨e, hwrite, -⟩ | ⟨beside, hgathering, ⟨e, hwrite⟩ |
    ⟨place, hlocate, hplace, hwrite⟩⟩ <;> rw [hwrite]
  · rfl
  · change FileTree.lookup? _ p = t.lookup? p
    have hdirs := hgathering.sameDirectories_cleared bytes
    unfold lookup?
    cases hlocate : t.locate p with
    | ok place =>
        have hne := ne_of_follow_temporary hlocate hgathering.follow_eq
        simp only [hdirs.locate_eq_ok_iff.mpr hlocate, hgathering.get?_cleared, if_neg hne]
    | error e =>
        split
        · rename_i place hlocate'
          rw [hdirs.locate_eq_ok_iff.mp hlocate'] at hlocate
          cases hlocate
        · rfl
  · change FileTree.lookup? _ p = some (.file bytes)
    have hdirs := hgathering.sameDirectories_moved bytes hplace
    simp only [lookup?, hdirs.locate_eq_ok_iff.mpr hlocate,
      get?_set_of_ne_nil _ (ne_nil_of_get?_ne hplace), if_true]

/-- **No file is left beside the path**, whether the write succeeds or fails. -/
theorem filePlace?_write (t : FileTree) (p : FilePath) (bytes : ByteArray) :
    (t.write p bytes).2.filePlace? (temporary p) = none := by
  rcases write_cases t p bytes with ⟨e, hwrite, hnone⟩ | ⟨beside, hgathering, ⟨e, hwrite⟩ |
    ⟨place, hlocate, hplace, hwrite⟩⟩ <;> rw [hwrite]
  · exact hnone
  · have hdirs := hgathering.sameDirectories_cleared bytes
    simp only [filePlace?, hdirs.follow_eq_ok_iff.mpr hgathering.follow_eq,
      hgathering.get?_cleared, if_true]
  · have hne := ne_of_follow_temporary hlocate hgathering.follow_eq
    have hdirs := hgathering.sameDirectories_moved bytes hplace
    simp only [filePlace?, hdirs.follow_eq_ok_iff.mpr hgathering.follow_eq,
      get?_set_of_ne_nil _ (ne_nil_of_get?_ne hplace), if_neg hne.symm, hgathering.get?_cleared,
      if_true]

/-- A place beside the path that holds a file is the one where the content is gathered. -/
theorem Gathering.filePlace?_eq_some_iff {beside q : List String} (h : Gathering t p beside) :
    t.filePlace? (temporary p) = some q ↔ q = beside ∧ t.get? beside ≠ none := by
  have hget := h.get?_ne
  simp only [filePlace?, h.follow_eq]
  cases hentry : t.get? beside with
  | none => simp
  | some e =>
      cases e with
      | directory => exact absurd hentry hget
      | file old => simp [eq_comm]

/-- Clearing the place beside the path changes the tree only if a file stood there. -/
theorem Gathering.get?_cleared_eq {beside : List String} (h : Gathering t p beside)
    (bytes : ByteArray) (q : List String) :
    ((t.set beside (.file bytes)).erase beside).get? q =
      if t.filePlace? (temporary p) = some q then none else t.get? q := by
  rw [h.get?_cleared]
  simp only [h.filePlace?_eq_some_iff]
  by_cases hq : q = beside
  · subst hq
    by_cases hnone : t.get? q = none <;> simp [hnone]
  · simp [hq]

/-- **What a write does elsewhere.** Every place but the path's own holds what it held before,
except that a file beside the path is gone. -/
theorem get?_write (t : FileTree) (p : FilePath) (bytes : ByteArray) {q : List String}
    (hq : t.locate p ≠ .ok q) :
    (t.write p bytes).2.get? q =
      if t.filePlace? (temporary p) = some q then none else t.get? q := by
  rcases write_cases t p bytes with ⟨e, hwrite, hnone⟩ | ⟨beside, hgathering, ⟨e, hwrite⟩ |
    ⟨place, hlocate, hplace, hwrite⟩⟩ <;> rw [hwrite]
  · rw [hnone]
    rfl
  · exact hgathering.get?_cleared_eq bytes q
  · have hne : q ≠ place := fun h => hq (h ▸ hlocate)
    rw [get?_set_of_ne_nil _ (ne_nil_of_get?_ne hplace), if_neg hne]
    exact hgathering.get?_cleared_eq bytes q

/-- A write that fails leaves the path's own place as it was, too. -/
theorem get?_write_of_not_isOk (t : FileTree) (p : FilePath) (bytes : ByteArray)
    (h : (t.write p bytes).1.isOk = false) (q : List String) :
    (t.write p bytes).2.get? q =
      if t.filePlace? (temporary p) = some q then none else t.get? q := by
  rcases write_cases t p bytes with ⟨e, hwrite, hnone⟩ | ⟨beside, hgathering, ⟨e, hwrite⟩ |
    ⟨place, hlocate, hplace, hwrite⟩⟩ <;> rw [hwrite] at h ⊢
  · rw [hnone]
    rfl
  · exact hgathering.get?_cleared_eq bytes q
  · cases h

end FileTree

end AliasStubs
