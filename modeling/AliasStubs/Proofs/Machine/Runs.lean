import AliasStubs.Proofs.Assembly.Runs
import AliasStubs.Proofs.Machine.Rows

/-!
# Runs of rows on a machine

A column that says where a run starts holds any number, so both ends of a run are moved into the
table before they are used, and an end that lies before the start is moved to the start. Only then
is the run used as a range: to take the rows that lie in it, and to write the owner of each.

## Main definitions

* `Machine.runBetween`, `Machine.runOf` : the run between two rows, and the one of an owner.
* `Machine.owners` : which type each method belongs to.

## Main results

* `Machine.runOf_eq` : **computing a run never faults**.
* `Machine.range_run`, `Machine.mapM_run` : nor does taking its rows.
* `Machine.owners_eq` : nor does writing the owners.
-/

namespace AliasStubs.Machine

/-! ### Ends of runs -/

/-- The position of a row, which is counted from one, in a table of `size` rows. -/
def position (row size : Nat) : Checked Nat := do
  return min (← sub (max row 1) 1) size

/-- The run from the row `start` up to the row `next?`, or up to the end, in a table of `size`
rows. -/
def runBetween (start : Nat) (next? : Option Nat) (size : Nat) : Checked Run := do
  let first ← position start size
  match next? with
  | some next => do
    let stop ← position next size
    return ⟨first, max stop first⟩
  | none => return ⟨first, max size first⟩

/-- The run of the `i`-th owner in a table of `size` rows. -/
def runOf {α : Type} (owners : Array α) (list : α → Nat) (size i : Nat) (owner : α) :
    Checked Run := do
  let following ← Word.word64.add i 1
  runBetween (list owner) (owners[following]?.map list) size

theorem position_eq (row size : Nat) : position row size = .ok (Run.position row size) := by
  have hsub : sub (max row 1) 1 = .ok (row - 1) := by
    rw [sub_of_le (Nat.le_max_right row 1)]
    congr 1
    omega
  rw [position, hsub]
  rfl

theorem runBetween_eq (start : Nat) (next? : Option Nat) (size : Nat) :
    runBetween start next? size = .ok (Run.between start next? size) := by
  rw [runBetween, position_eq, ok_bind]
  cases next? with
  | none => rfl
  | some next => simp only [position_eq, ok_bind, Run.between]; rfl

/-- **Computing a run never faults.** -/
theorem runOf_eq {α : Type} [TableRow α] {owners : Array α} (hrows : Numbered owners)
    (list : α → Nat) (size : Nat) {i : Nat} {owner : α} (h : owners[i]? = some owner) :
    runOf owners list size i owner = .ok (.ofOwner owners list size i) := by
  have hlt : i < owners.size := (Array.getElem?_eq_some_iff.mp h).1
  have hsize := hrows.size_lt
  rw [UInt32.size] at hsize
  have hfollowing : Word.word64.add i 1 = .ok (i + 1) :=
    Word.add_word64 (by omega)
  rw [runOf, hfollowing, ok_bind, runBetween_eq, Run.ofOwner, h]

/-! ### Rows of runs -/

/-- Taking the rows of a run that lies inside the table never faults. -/
theorem range_run {α : Type} {rows : Array α} {r : Run} (hfirst : r.first ≤ r.stop)
    (hstop : r.stop ≤ rows.size) : range rows r.first r.stop = .ok (r.rows rows) :=
  range_of_le hfirst hstop

/-- Going through rows that are all there by their positions is going through them. -/
theorem mapM_range' {α β : Type} {rows : Array α} {l : List α} {first : Nat}
    (h : ∀ j (hj : j < l.length), rows[first + j]? = some l[j]) (f : Nat → α → Checked β) :
    ((List.range' first l.length).mapM fun i => index rows i >>= f i) =
      (l.zipIdx first).mapM fun (a, i) => f i a := by
  induction l generalizing first with
  | nil => rfl
  | cons a l ih =>
      have hhead : index rows first = .ok a := index_of_getElem? (h 0 (Nat.succ_pos _))
      have htail : ∀ j (hj : j < l.length), rows[first + 1 + j]? = some l[j] := by
        intro j hj
        have := h (j + 1) (Nat.succ_lt_succ hj)
        rwa [← Nat.add_assoc, Nat.add_right_comm] at this
      rw [List.length_cons, List.range'_succ, List.mapM_cons, List.zipIdx_cons, List.mapM_cons,
        hhead, ok_bind, ih htail]

/-- **Going through a run** that lies inside the table never faults on its way. -/
theorem mapM_run {α β : Type} {rows : Array α} {r : Run} (hfirst : r.first ≤ r.stop)
    (hstop : r.stop ≤ rows.size) (f : Nat → α → Checked β) :
    (r.positions.mapM fun i => index rows i >>= f i) =
      ((r.rows rows).zipIdx r.first).mapM fun (a, i) => f i a := by
  have hlength : (r.rows rows).length = r.stop - r.first := by
    rw [Run.rows, Array.length_toList, Array.size_extract]
    omega
  rw [Run.positions, ← hlength]
  refine mapM_range' (fun j hj => ?_) f
  rw [hlength] at hj
  have hrow : rows[r.first + j]? = some rows[r.first + j] := Array.getElem?_eq_getElem (by omega)
  simp only [hrow, Run.rows, Array.getElem_toList, Array.getElem_extract]

/-! ### Owners -/

/-- Writes the `i`-th type as the owner of the methods in its run. -/
def writeOwner (types : Array TypeDefRow) (methodCount : Nat) (owners : Array Nat)
    (entry : TypeDefRow × Nat) : Checked (Array Nat) := do
  let run ← runOf types (·.methodList) methodCount entry.2 entry.1
  fill owners run.first run.stop entry.1.rid

/-- The row of the type that each method belongs to, zero if it belongs to none. -/
def owners (types : Array TypeDefRow) (methodCount : Nat) : Checked (Array Nat) :=
  types.toList.zipIdx.foldlM (writeOwner types methodCount) (.replicate methodCount 0)

/-- The first `k` types are written one after the other. -/
theorem foldlM_writeOwner {types : Array TypeDefRow} (htypes : Numbered types) (methodCount : Nat)
    {k : Nat} (hk : k ≤ types.size) :
    (types.toList.zipIdx.take k).foldlM (writeOwner types methodCount) (.replicate methodCount 0) =
      .ok (ownersOfFirst types methodCount k) := by
  induction k with
  | zero => rfl
  | succ k ih =>
      have hrow : types[k]? = some types[k] := Array.getElem?_eq_getElem hk
      have hentry : types.toList.zipIdx[k]? = some (types[k], k) := by
        rw [List.getElem?_zipIdx, Array.getElem?_toList, hrow, Nat.zero_add]
        rfl
      obtain ⟨hfirst, hstop⟩ := methodRun_bounds types methodCount k
      have hrid : types[k].rid = k + 1 := by
        obtain ⟨cells, hcells⟩ := htypes.exists_cells hrow
        rw [hcells]
        rfl
      have hwrite : writeOwner types methodCount (ownersOfFirst types methodCount k) (types[k], k) =
          .ok (ownersOfFirst types methodCount (k + 1)) := by
        rw [writeOwner, runOf_eq htypes _ _ hrow, ok_bind, hrid, ownersOfFirst_succ, fill,
          if_pos ⟨hfirst, hstop.trans_eq (size_ownersOfFirst _ _ _).symm⟩]
        rfl
      rw [List.take_add_one, hentry, List.foldlM_append, ih (Nat.le_of_succ_le hk), ok_bind]
      change writeOwner _ _ _ _ >>= _ = _
      rw [hwrite]
      rfl

/-- **Writing the owners of all methods never faults.** -/
theorem owners_eq {types : Array TypeDefRow} (htypes : Numbered types) (methodCount : Nat) :
    owners types methodCount = .ok (methodOwners types methodCount) := by
  have hall := foldlM_writeOwner htypes methodCount (Nat.le_refl types.size)
  rwa [List.take_of_length_le (by simp)] at hall

end AliasStubs.Machine
