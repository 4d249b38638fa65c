import AliasStubs.Proofs.Files.Write

/-!
# When a write succeeds, and writing again

Whether a write succeeds depends on the directories of the tree alone: the file beside the path has
to be somewhere where no directory is, and so has the path itself. A write leaves all directories
where they are, so what could be written once can be written again. And writing the same content a
second time changes nothing at all.

## Main definitions

* `FileTree.Writable` : a path leads to a place for a file, and so does the one beside it.

## Main results

* `FileTree.write_eq_ok_iff` : a write succeeds exactly if its path is writable.
* `FileTree.Writable.of_sameDirectories` : this is a matter of directories.
* `FileTree.sameDirectories_write` : which no write changes.
* `FileTree.write_again` : **a second write leaves the tree exactly as the first one did**.
-/

namespace AliasStubs

namespace FileTree

variable {t t' : FileTree} {p : FilePath} {bytes : ByteArray}

/-! ### Writable paths -/

/-- The place that a path leads to can take a file, and `beside`, where the content is gathered, can
do so too. -/
structure WritableAt (t : FileTree) (p : FilePath) (beside place : List String) : Prop where
  gathering : Gathering t p beside
  locate_eq : t.locate p = .ok place
  get?_ne : t.get? place ≠ some .directory
  endsInSlash_eq : p.endsInSlash = false

/-- A file can be written at a path. -/
def Writable (t : FileTree) (p : FilePath) : Prop :=
  ∃ beside place, WritableAt t p beside place

/-- Whether a path can be written is a matter of directories. -/
theorem WritableAt.of_sameDirectories {beside place : List String} (hdirs : SameDirectories t t')
    (h : WritableAt t p beside place) : WritableAt t' p beside place where
  gathering := {
    follow_eq := hdirs.follow_eq_ok_iff.mpr h.gathering.follow_eq
    get?_ne := fun hdir => h.gathering.get?_ne ((hdirs beside).mp hdir) }
  locate_eq := hdirs.locate_eq_ok_iff.mpr h.locate_eq
  get?_ne := fun hdir => h.get?_ne ((hdirs place).mp hdir)
  endsInSlash_eq := h.endsInSlash_eq

theorem Writable.of_sameDirectories (hdirs : SameDirectories t t') (h : Writable t p) :
    Writable t' p := by
  obtain ⟨beside, place, h⟩ := h
  exact ⟨beside, place, h.of_sameDirectories hdirs⟩

/-- Steps are followed one after the other. -/
theorem followFrom_append (t : FileTree) (place first second : List String) :
    t.followFrom place (first ++ second) =
      (t.followFrom place first).bind fun place' => t.followFrom place' second := by
  induction first generalizing place with
  | nil => rfl
  | cons step first ih =>
      rw [List.cons_append, followFrom, followFrom]
      cases t.get? place with
      | none => rfl
      | some e =>
          cases e with
          | directory => exact ih (stepFrom place step)
          | file old => rfl

/-- A step is only taken from a directory. -/
theorem get?_of_followFrom_cons {place place' : List String} {step : String} {steps : List String}
    (h : t.followFrom place (step :: steps) = .ok place') : t.get? place = some .directory := by
  rw [followFrom] at h
  split at h
  · cases h
  · cases h
  · assumption

/-- **A path that can be written ends in a name**, and leads to the place of this name. -/
theorem WritableAt.exists_fileName {beside place : List String} (h : WritableAt t p beside place) :
    ∃ dir name, p.fileName? = some name ∧ place = dir ++ [name] := by
  have hfollow : t.follow p.steps = .ok place := by
    have hlocate := h.locate_eq
    unfold locate at hlocate
    split at hlocate
    · cases hlocate
    · exact hlocate
  cases hname : p.fileName? with
  | some name =>
      obtain ⟨hsteps, hdot, hup⟩ := steps_of_fileName? hname
      refine ⟨p.movingSteps.dropLast.foldl stepFrom [], name, rfl, ?_⟩
      rw [eq_foldl_of_followFrom hfollow, ← foldl_stepFrom_movingSteps]
      change p.movingSteps.foldl stepFrom [] = _
      rw [hsteps, List.foldl_append, List.foldl_cons, List.foldl_nil, List.dropLast_concat]
      exact stepFrom_of_ne hdot hup
  | none =>
      -- The content would be gathered in the directory that the path leads to.
      have hbeside := h.gathering.follow_eq
      rw [temporary, FilePath.sibling, hname, follow, followFrom_append] at hbeside
      rw [follow] at hfollow
      rw [hfollow] at hbeside
      exact absurd (get?_of_followFrom_cons hbeside) h.get?_ne

/-! ### What succeeds -/

/-- A file can be put where steps lead to no directory. -/
theorem create_eq_ok {steps place : List String} (hfollow : t.follow steps = .ok place)
    (hget : t.get? place ≠ some .directory) (bytes : ByteArray) :
    t.create steps bytes = .ok (t.set place (.file bytes)) := by
  unfold create
  rw [hfollow]
  simp only [bind, Except.bind]
  cases hentry : t.get? place with
  | none => rfl
  | some e =>
      cases e with
      | directory => exact absurd hentry hget
      | file old => rfl

/-- A file can be moved to where a path leads to no directory, unless it asks for one. -/
theorem move_eq_ok {source steps place : List String} (hfollow : t.follow steps = .ok source)
    (hfile : t.get? source = some (.file bytes)) (hlocate : t.locate p = .ok place)
    (hslash : p.endsInSlash = false) (hget : t.get? place ≠ some .directory) :
    t.move steps p = .ok ((t.erase source).set place (.file bytes)) := by
  unfold move bytesAt
  rw [hfollow]
  simp only [bind, Except.bind, hfile, hlocate, hslash]
  cases hentry : t.get? place with
  | none => rfl
  | some e =>
      cases e with
      | directory => exact absurd hentry hget
      | file old => rfl

/-- The content is gathered, moved away from there, and stands at the path. -/
theorem WritableAt.write_eq {beside place : List String} (h : WritableAt t p beside place)
    (bytes : ByteArray) : t.write p bytes =
      (.ok (), ((t.set beside (.file bytes)).erase beside).set place (.file bytes)) := by
  have hdirs : SameDirectories t (t.set beside (.file bytes)) :=
    sameDirectories_set h.gathering.ne_nil h.gathering.get?_ne
  have hgathered := h.of_sameDirectories hdirs
  have hfile : (t.set beside (.file bytes)).get? beside = some (.file bytes) := by
    rw [get?_set_of_ne_nil _ h.gathering.ne_nil, if_pos rfl]
  have hmove := move_eq_ok hgathered.gathering.follow_eq hfile hgathered.locate_eq
    h.endsInSlash_eq hgathered.get?_ne
  simp only [write, create_eq_ok h.gathering.follow_eq h.gathering.get?_ne bytes, hmove]

/-- A move that succeeds goes to a path that asks for no directory. -/
theorem endsInSlash_of_move {steps : List String} (h : t.move steps p = .ok t') :
    p.endsInSlash = false := by
  cases hslash : p.endsInSlash with
  | false => rfl
  | true =>
      unfold move at h
      simp only [hslash, if_true, bind, Except.bind] at h
      split at h
      · cases h
      · split at h
        · cases h
        · split at h <;> cases h

/-- A path that has been written is writable. -/
theorem writable_of_write {left : FileTree} (h : t.write p bytes = (.ok (), left)) :
    Writable t p := by
  rcases write_cases t p bytes with ⟨e, hwrite, -⟩ | ⟨beside, hgathering, ⟨e, hwrite⟩ |
    ⟨place, hlocate, hplace, -⟩⟩
  · rw [hwrite] at h
    cases h
  · rw [hwrite] at h
    cases h
  · refine ⟨beside, place, hgathering, hlocate, hplace, ?_⟩
    unfold write at h
    split at h
    · cases h
    · split at h
      · cases h
      · rename_i hmove
        exact endsInSlash_of_move hmove

/-- **A write succeeds exactly if its path is writable**, whatever is written. -/
theorem write_eq_ok_iff (bytes : ByteArray) :
    (∃ left, t.write p bytes = (.ok (), left)) ↔ Writable t p := by
  constructor
  · rintro ⟨left, h⟩
    exact writable_of_write h
  · rintro ⟨beside, place, h⟩
    exact ⟨_, h.write_eq bytes⟩

/-! ### What a write leaves -/

/-- **No write makes or removes a directory.** -/
theorem sameDirectories_write (t : FileTree) (p : FilePath) (bytes : ByteArray) :
    SameDirectories t (t.write p bytes).2 := by
  rcases write_cases t p bytes with ⟨e, hwrite, -⟩ | ⟨beside, hgathering, ⟨e, hwrite⟩ |
    ⟨place, -, hplace, hwrite⟩⟩ <;> rw [hwrite]
  · exact fun place => Iff.rfl
  · exact hgathering.sameDirectories_cleared bytes
  · exact hgathering.sameDirectories_moved bytes hplace

/-- A path that has been written leads to the file with the new content. -/
theorem lookup?_of_write {left : FileTree} (h : t.write p bytes = (.ok (), left)) :
    left.lookup? p = some (.file bytes) := by
  have hlookup := lookup?_write t p bytes
  rwa [h] at hlookup

/-- So this file stands at the place that the path led to before. -/
theorem get?_of_write {left : FileTree} (h : t.write p bytes = (.ok (), left))
    {place : List String} (hlocate : t.locate p = .ok place) :
    left.get? place = some (.file bytes) := by
  have hdirs := sameDirectories_write t p bytes
  rw [h] at hdirs
  rw [← lookup?_of_write h, lookup?, hdirs.locate_eq_ok_iff.mpr hlocate]

/-! ### Writing again -/

/-- Trees with the same entries in the same order are the same. -/
theorem eq_of_entries (h : t.entries = t'.entries) : t = t' := by
  cases t
  cases t'
  cases h
  rfl

theorem erase_erase (t : FileTree) (place : List String) :
    (t.erase place).erase place = t.erase place :=
  eq_of_entries (by simp [erase, List.filter_filter])

/-- What is put at a place and taken away again leaves the place cleared. -/
theorem erase_set_self (t : FileTree) (place : List String) (e : Entry) :
    (t.set place e).erase place = t.erase place :=
  eq_of_entries (by simp [erase, set, List.filter_filter])

/-- Clearing one place and putting something at another one can be done in either order. -/
theorem erase_set_of_ne (t : FileTree) {place place' : List String} (e : Entry)
    (h : place' ≠ place) : (t.set place' e).erase place = (t.erase place).set place' e := by
  refine eq_of_entries ?_
  simp only [erase, set]
  rw [List.filter_cons_of_pos (by simpa using h), List.filter_filter, List.filter_filter]
  simp only [Bool.and_comm]

/-- What is put at a place takes the place of what was put there before. -/
theorem set_set (t : FileTree) (place : List String) (e e' : Entry) :
    (t.set place e).set place e' = t.set place e' :=
  eq_of_entries (by simp [erase, set, List.filter_filter])

/-- **A second write leaves the tree exactly as the first one did**, and succeeds as that did. -/
theorem write_again {left : FileTree} (h : t.write p bytes = (.ok (), left)) :
    left.write p bytes = (.ok (), left) := by
  obtain ⟨beside, place, hwritable⟩ := writable_of_write h
  have hdirs := sameDirectories_write t p bytes
  rw [h] at hdirs
  have hne : place ≠ beside :=
    ne_of_follow_temporary hwritable.locate_eq hwritable.gathering.follow_eq
  have hleft : left = (t.erase beside).set place (.file bytes) := by
    have hwrite := hwritable.write_eq bytes
    rw [h, erase_set_self] at hwrite
    exact congrArg Prod.snd hwrite
  have hcleared : left.erase beside = left := by
    rw [hleft, erase_set_of_ne _ _ hne, erase_erase]
  calc left.write p bytes
      = (.ok (), ((left.set beside (.file bytes)).erase beside).set place (.file bytes)) :=
        (hwritable.of_sameDirectories hdirs).write_eq bytes
    _ = (.ok (), left.set place (.file bytes)) := by rw [erase_set_self, hcleared]
    _ = (.ok (), left) := by rw [hleft, set_set]

end FileTree

end AliasStubs
