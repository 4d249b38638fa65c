import AliasStubs.Proofs.Files.Listing

/-!
# Trees without order

A tree keeps its entries in some order, in which it also lists its directories. Nothing else that is
done with a tree depends on this order: paths lead to the same places, writes succeed or fail alike
and leave trees that are alike, and the candidates of a directory are found in the same order.

## Main definitions

* `FileTree.Alike` : two trees hold the same at every place.

## Main results

* `FileTree.alike_of_perm` : the order of the entries does not matter.
* `FileTree.Alike.write`, `FileTree.Alike.candidates_eq` : alike trees are written and listed alike.
* `FileTree.libraries_eq_of_perm` : nor does the order in which a directory is listed.
-/

namespace AliasStubs

namespace FileTree

/-- Two trees hold the same at every place. -/
def Alike (t t' : FileTree) : Prop :=
  ∀ place, t'.get? place = t.get? place

variable {t t' : FileTree} {place place' : List String} {bytes : ByteArray}

/-- The directory that the trees stand in is always there. -/
theorem alike_of_ne_nil (h : ∀ place, place ≠ [] → t'.get? place = t.get? place) : Alike t t' := by
  intro place
  by_cases hroot : place = []
  · rw [hroot, get?_nil, get?_nil]
  · exact h place hroot

/-- **The order of the entries does not matter.** -/
theorem alike_of_perm (h : t'.entries.Perm t.entries) : Alike t t' := by
  refine alike_of_ne_nil fun place hne => Option.ext fun e => ?_
  rw [get?_eq_some_iff hne, get?_eq_some_iff hne, h.mem_iff]

namespace Alike

/-! ### Paths -/

theorem followFrom_eq (h : Alike t t') (place steps : List String) :
    t'.followFrom place steps = t.followFrom place steps := by
  induction steps generalizing place with
  | nil => rfl
  | cons step steps ih =>
      rw [followFrom, followFrom, h place]
      rcases t.get? place with _ | _ | old
      · rfl
      · exact ih (stepFrom place step)
      · rfl

theorem follow_eq (h : Alike t t') (steps : List String) : t'.follow steps = t.follow steps :=
  h.followFrom_eq [] steps

/-- Every path leads to the same place. -/
theorem locate_eq (h : Alike t t') (p : FilePath) : t'.locate p = t.locate p := by
  rw [locate, locate, h.follow_eq]

/-! ### Changes -/

/-- Putting the same in at the same place leaves alike trees alike. -/
theorem set (h : Alike t t') (place : List String) (e : Entry) :
    Alike (t.set place e) (t'.set place e) := by
  refine alike_of_ne_nil fun q hq => ?_
  rw [get?_set _ _ hq, get?_set _ _ hq, h q]

/-- So does taking out what is there. -/
theorem erase (h : Alike t t') (place : List String) : Alike (t.erase place) (t'.erase place) := by
  refine alike_of_ne_nil fun q hq => ?_
  rw [get?_erase _ hq, get?_erase _ hq, h q]

theorem discard (h : Alike t t') (steps : List String) :
    Alike (t.discard steps) (t'.discard steps) := by
  rw [FileTree.discard, FileTree.discard, h.follow_eq]
  rcases t.follow steps with e | place
  · exact h
  · simp only [h place]
    rcases t.get? place with _ | _ | old
    · exact h
    · exact h
    · exact h.erase place

/-- A file is made in both trees or in neither, for the same reason. -/
theorem create_cases (h : Alike t t') (steps : List String) (bytes : ByteArray) :
    (∃ e, t.create steps bytes = .error e ∧ t'.create steps bytes = .error e) ∨
    ∃ made made', t.create steps bytes = .ok made ∧ t'.create steps bytes = .ok made' ∧
      Alike made made' := by
  rw [create, create, h.follow_eq]
  rcases t.follow steps with e | place
  · exact .inl ⟨e, rfl, rfl⟩
  · simp only [bind, Except.bind, h place]
    rcases t.get? place with _ | _ | old
    · exact .inr ⟨_, _, rfl, rfl, h.set place _⟩
    · exact .inl ⟨_, rfl, rfl⟩
    · exact .inr ⟨_, _, rfl, rfl, h.set place _⟩

/-- A file is moved in both trees or in neither, for the same reason. -/
theorem move_cases (h : Alike t t') (steps : List String) (p : FilePath) :
    (∃ e, t.move steps p = .error e ∧ t'.move steps p = .error e) ∨
    ∃ moved moved', t.move steps p = .ok moved ∧ t'.move steps p = .ok moved' ∧
      Alike moved moved' := by
  rw [move, move, h.follow_eq, h.locate_eq]
  rcases t.follow steps with e | source
  · exact .inl ⟨e, rfl, rfl⟩
  simp only [bind, Except.bind, bytesAt, h source]
  rcases t.get? source with _ | _ | bytes
  · exact .inl ⟨_, rfl, rfl⟩
  · exact .inl ⟨_, rfl, rfl⟩
  rcases t.locate p with e | place
  · exact .inl ⟨e, rfl, rfl⟩
  simp only [h place]
  by_cases hslash : p.endsInSlash = true
  · simp only [hslash, if_true]
    exact .inl ⟨_, rfl, rfl⟩
  · simp only [hslash]
    rcases t.get? place with _ | _ | old
    · exact .inr ⟨_, _, rfl, rfl, (h.erase source).set place _⟩
    · exact .inl ⟨_, rfl, rfl⟩
    · exact .inr ⟨_, _, rfl, rfl, (h.erase source).set place _⟩

/-- **Alike trees are written alike**: with the same outcome, and to alike trees. -/
theorem write (h : Alike t t') (p : FilePath) (bytes : ByteArray) :
    (t'.write p bytes).1 = (t.write p bytes).1 ∧
      Alike (t.write p bytes).2 (t'.write p bytes).2 := by
  rw [FileTree.write, FileTree.write]
  rcases h.create_cases (temporary p) bytes with ⟨e, he, he'⟩ | ⟨made, made', he, he', hmade⟩
  · rw [he, he']
    exact ⟨rfl, h.discard _⟩
  · rw [he, he']
    rcases hmade.move_cases (temporary p) p with ⟨e, hm, hm'⟩ | ⟨moved, moved', hm, hm', hmoved⟩
    · simp only [hm, hm', true_and]
      exact hmade.discard _
    · simp only [hm, hm', true_and]
      exact hmoved

/-! ### Candidates -/

/-- **Alike trees have the same candidates** in every directory, in the same order. -/
theorem candidates_eq (h : Alike t t') (p : FilePath) : t'.candidates p = t.candidates p := by
  rw [candidates, candidates, list, list, h.locate_eq]
  rcases t.locate p with e | place
  · rfl
  · simp only [bind, Except.bind, h place]
    rcases t.get? place with _ | _ | old
    · rfl
    · exact congrArg Except.ok (libraries_eq fun name _ => h _)
    · rfl

end Alike

/-- **The order in which a directory is listed does not matter.** -/
theorem libraries_eq_of_perm (h : (t'.children place').Perm (t.children place)) :
    t'.libraries place' = t.libraries place := by
  refine eq_of_pairwise_name (t'.pairwise_libraries place') (t.pairwise_libraries place) fun a => ?_
  rw [libraries, libraries, List.mem_mergeSort, List.mem_mergeSort]
  exact (h.filterMap candidate?).mem_iff

end FileTree

end AliasStubs
