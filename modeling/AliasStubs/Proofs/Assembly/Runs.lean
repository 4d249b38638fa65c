import AliasStubs.Assembly.Introspection
import Mathlib.Tactic.Common

/-!
# Runs of rows and their owners

Every column that says where a run starts is moved into the table, so runs lie inside it whatever
the columns hold. Owners are written type by type, and a later type overwrites an earlier one. If
the columns do not decrease, every run ends where the next one starts: then the runs divide the rest
of the table among the types, and nothing is overwritten.

## Main definitions

* `IsOwner` : the row of the last type whose run holds a method.

## Main results

* `exists_methodOwners` : **the recorded owner is the last type** whose run holds the method.
* `flatMap_positions` : runs of columns that do not decrease **divide the rest of the table**.
* `IsOwner.mem_positions_iff` : and then a method lies in the run of its owner only.
-/

namespace AliasStubs

/-! ### Positions of a run -/

namespace Run

theorem mem_positions {r : Run} {p : Nat} : p ∈ r.positions ↔ r.first ≤ p ∧ p < r.stop := by
  rw [positions, List.mem_range'_1]
  omega

/-- The run of an owner lies inside its table. -/
theorem ofOwner_bounds {α : Type} (owners : Array α) (list : α → Nat) (size i : Nat) :
    (ofOwner owners list size i).first ≤ (ofOwner owners list size i).stop ∧
      (ofOwner owners list size i).stop ≤ size := by
  rw [ofOwner]
  split
  · exact between_bounds _ _ _
  · exact ⟨Nat.le_refl _, Nat.le_refl _⟩

variable {α : Type} {table : Array α} {r : Run}

/-- What is numbered in a run stands at its number in the table. -/
theorem getElem?_of_mem_zipIdx {a : α} {p : Nat} (h : (a, p) ∈ (r.rows table).zipIdx r.first) :
    table[p]? = some a := by
  obtain ⟨hle, hrow⟩ := List.mk_mem_zipIdx_iff_le_and_getElem?_sub.mp h
  rw [rows, Array.getElem?_toList, Array.getElem?_extract] at hrow
  split at hrow
  · rwa [Nat.add_sub_cancel' hle] at hrow
  · cases hrow

/-- The rows of a run are those at its positions. -/
theorem mem_rows {a : α} : a ∈ r.rows table ↔ ∃ p, r.first ≤ p ∧ p < r.stop ∧ table[p]? = some a := by
  rw [rows, List.mem_iff_getElem?]
  simp only [Array.getElem?_toList, Array.getElem?_extract]
  constructor
  · rintro ⟨i, h⟩
    split at h
    · exact ⟨r.first + i, Nat.le_add_right _ _, by omega, h⟩
    · cases h
  · rintro ⟨p, hfirst, hstop, h⟩
    obtain ⟨hlt, -⟩ := Array.getElem?_eq_some_iff.mp h
    refine ⟨p - r.first, ?_⟩
    rw [if_pos (by omega), Nat.add_sub_cancel' hfirst]
    exact h

/-- The rows of a run inside the table are numbered by its positions. -/
theorem map_snd_zipIdx_rows (h : r.stop ≤ table.size) :
    ((r.rows table).zipIdx r.first).map (·.2) = r.positions := by
  have hlength : (r.rows table).length = r.stop - r.first := by
    rw [rows, Array.length_toList, Array.size_extract]
    omega
  rw [List.zipIdx_map_snd, hlength, positions]

end Run

variable {types : Array TypeDefRow} {methodCount i j p o : Nat}

/-- The run of every type lies inside the table of the methods. -/
theorem methodRun_bounds (types : Array TypeDefRow) (methodCount i : Nat) :
    (methodRun types methodCount i).first ≤ (methodRun types methodCount i).stop ∧
      (methodRun types methodCount i).stop ≤ methodCount :=
  Run.ofOwner_bounds types (·.methodList) methodCount i

/-- Where there is no type, nothing is owned. -/
theorem methodRun_of_size_le (h : types.size ≤ i) :
    methodRun types methodCount i = ⟨methodCount, methodCount⟩ := by
  rw [methodRun, Run.ofOwner, Array.getElem?_eq_none h]

theorem lt_size_of_mem_positions (h : p ∈ (methodRun types methodCount i).positions) :
    i < types.size := by
  by_contra hi
  rw [methodRun_of_size_le (Nat.not_lt.mp hi), Run.mem_positions] at h
  exact absurd h.1 (Nat.not_le.mpr h.2)

/-! ### Owners -/

/-- The owners after the first `k` types. -/
def ownersOfFirst (types : Array TypeDefRow) (methodCount k : Nat) : Array Nat :=
  k.fold
    (fun i _ owners =>
      (methodRun types methodCount i).positions.foldl
        (fun owners p => owners.setIfInBounds p (i + 1)) owners)
    (.replicate methodCount 0)

theorem ownersOfFirst_succ (types : Array TypeDefRow) (methodCount k : Nat) :
    ownersOfFirst types methodCount (k + 1) =
      (methodRun types methodCount k).positions.foldl
        (fun owners p => owners.setIfInBounds p (k + 1)) (ownersOfFirst types methodCount k) :=
  Nat.fold_succ _ _ _

/-- Writing into an array does not change its size. -/
theorem size_foldl_setIfInBounds {α : Type} (positions : List Nat) (a : α) (xs : Array α) :
    (positions.foldl (fun xs p => xs.setIfInBounds p a) xs).size = xs.size := by
  induction positions generalizing xs with
  | nil => rfl
  | cons p positions ih => rw [List.foldl_cons, ih, Array.size_setIfInBounds]

/-- Writing into an array changes what stands at the written places only. -/
theorem getElem?_foldl_setIfInBounds {α : Type} (positions : List Nat) (a : α) {xs : Array α}
    (h : p < xs.size) :
    (positions.foldl (fun xs p => xs.setIfInBounds p a) xs)[p]? =
      if p ∈ positions then some a else xs[p]? := by
  induction positions generalizing xs with
  | nil => rfl
  | cons q positions ih =>
      rw [List.foldl_cons, ih (by rwa [Array.size_setIfInBounds]), Array.getElem?_setIfInBounds]
      by_cases hq : q = p
      · simp [hq, h]
      · simp [hq, Ne.symm hq]

theorem size_ownersOfFirst (types : Array TypeDefRow) (methodCount k : Nat) :
    (ownersOfFirst types methodCount k).size = methodCount := by
  induction k with
  | zero => exact Array.size_replicate
  | succ k ih => rw [ownersOfFirst_succ, size_foldl_setIfInBounds, ih]

/-- The type in the row `o` **owns** the method at the position `p`: it is the last one whose run
holds `p`. Row zero stands for no type. -/
structure IsOwner (types : Array TypeDefRow) (methodCount p o : Nat) : Prop where
  /-- The run of the owner holds the method. -/
  mem : ∀ i, o = i + 1 → p ∈ (methodRun types methodCount i).positions
  /-- No run of a later type does. -/
  last : ∀ i, p ∈ (methodRun types methodCount i).positions → i < o

/-- A method has one owner. -/
theorem IsOwner.unique {o' : Nat} (h : IsOwner types methodCount p o)
    (h' : IsOwner types methodCount p o') : o = o' := by
  have hle {o o' : Nat} (h : IsOwner types methodCount p o) (h' : IsOwner types methodCount p o') :
      o ≤ o' := by
    cases o with
    | zero => exact Nat.zero_le _
    | succ i => exact h'.last i (h.mem i rfl)
  exact Nat.le_antisymm (hle h h') (hle h' h)

/-- An owner is a type. -/
theorem IsOwner.lt_size (h : IsOwner types methodCount p (i + 1)) : i < types.size :=
  lt_size_of_mem_positions (h.mem i rfl)

/-- Only methods that exist have owners. -/
theorem IsOwner.lt_methodCount (h : IsOwner types methodCount p (i + 1)) : p < methodCount :=
  Nat.lt_of_lt_of_le (Run.mem_positions.mp (h.mem i rfl)).2 (methodRun_bounds types methodCount i).2

/-- After the first `k` types, the last one among them whose run holds a method is its owner. -/
theorem exists_ownersOfFirst (types : Array TypeDefRow) (h : p < methodCount) (k : Nat) :
    ∃ o, (ownersOfFirst types methodCount k)[p]? = some o ∧
      (∀ i, o = i + 1 → p ∈ (methodRun types methodCount i).positions) ∧
      ∀ i < k, p ∈ (methodRun types methodCount i).positions → i < o := by
  induction k with
  | zero =>
      refine ⟨0, ?_, nofun, nofun⟩
      rw [ownersOfFirst, Nat.fold_zero, Array.getElem?_replicate, if_pos h]
  | succ k ih =>
      have hsize : p < (ownersOfFirst types methodCount k).size := by
        rwa [size_ownersOfFirst]
      rw [ownersOfFirst_succ, getElem?_foldl_setIfInBounds _ _ hsize]
      by_cases hp : p ∈ (methodRun types methodCount k).positions
      · refine ⟨k + 1, if_pos hp, ?_, fun i hi _ => hi⟩
        intro i hi
        obtain rfl : k = i := Nat.succ.inj hi
        exact hp
      · obtain ⟨o, ho, hmem, hlast⟩ := ih
        refine ⟨o, by rw [if_neg hp, ho], hmem, ?_⟩
        intro i hi hpi
        rcases Nat.lt_succ_iff_lt_or_eq.mp hi with hlt | rfl
        · exact hlast i hlt hpi
        · exact absurd hpi hp

/-- **The recorded owner** of a method is the last type whose run holds it. -/
theorem exists_methodOwners (types : Array TypeDefRow) (h : p < methodCount) :
    ∃ o, (methodOwners types methodCount)[p]? = some o ∧ IsOwner types methodCount p o := by
  obtain ⟨o, ho, hmem, hlast⟩ := exists_ownersOfFirst types h types.size
  exact ⟨o, ho, hmem, fun i hp => hlast i (lt_size_of_mem_positions hp) hp⟩

/-! ### Columns that do not decrease -/

section Sorted

variable (hsorted : types.toList.Pairwise (·.methodList ≤ ·.methodList))
include hsorted

/-- A run ends where the next one starts. -/
theorem stop_methodRun (methodCount i : Nat) :
    (methodRun types methodCount i).stop = (methodRun types methodCount (i + 1)).first := by
  by_cases hi : i + 1 < types.size
  · have hrow : types[i]? = some types[i] := Array.getElem?_eq_getElem (by omega)
    have hnext : types[i + 1]? = some types[i + 1] := Array.getElem?_eq_getElem hi
    have hle : types[i].methodList ≤ types[i + 1].methodList :=
      List.pairwise_iff_getElem.mp hsorted i (i + 1) (by simp; omega) (by simpa)
        (Nat.lt_succ_self i)
    simp only [methodRun, Run.ofOwner, hrow, hnext, Option.map_some, Run.between, Run.position]
    omega
  · rw [methodRun_of_size_le (i := i + 1) (by omega), methodRun, Run.ofOwner,
      Array.getElem?_eq_none (i := i + 1) (by omega)]
    split
    · simp only [Option.map_none, Run.between, Run.position]
      omega
    · rfl

/-- Runs start one behind the other. -/
theorem first_methodRun_le (methodCount : Nat) (h : i ≤ j) :
    (methodRun types methodCount i).first ≤ (methodRun types methodCount j).first := by
  induction h with
  | refl => exact Nat.le_refl _
  | @step j _ ih =>
      have hstop := stop_methodRun hsorted methodCount j
      have hbounds := methodRun_bounds types methodCount j
      exact Nat.le_trans ih (Nat.le_trans hbounds.1 (Nat.le_of_eq hstop))

/-- The runs of the first `k` types are one run. -/
theorem flatMap_positions_range (methodCount k : Nat) :
    (List.range k).flatMap (fun i => (methodRun types methodCount i).positions) =
      List.range' (methodRun types methodCount 0).first
        ((methodRun types methodCount k).first - (methodRun types methodCount 0).first) := by
  induction k with
  | zero => simp
  | succ k ih =>
      have hfirst := first_methodRun_le hsorted methodCount (Nat.zero_le k)
      have hbounds := methodRun_bounds types methodCount k
      have hstop := stop_methodRun hsorted methodCount k
      rw [List.range_succ, List.flatMap_append, ih, List.flatMap_singleton, Run.positions, ← hstop]
      have hstart : (methodRun types methodCount k).first = (methodRun types methodCount 0).first +
          ((methodRun types methodCount k).first - (methodRun types methodCount 0).first) := by
        omega
      have hcount : (methodRun types methodCount k).stop - (methodRun types methodCount 0).first =
          ((methodRun types methodCount k).first - (methodRun types methodCount 0).first) +
            ((methodRun types methodCount k).stop - (methodRun types methodCount k).first) := by
        omega
      rw [hcount, ← List.range'_append_1, ← hstart]

/-- **The runs divide the rest of the table** from where the first of them starts. -/
theorem flatMap_positions (methodCount : Nat) :
    (List.range types.size).flatMap (fun i => (methodRun types methodCount i).positions) =
      List.range' (methodRun types methodCount 0).first
        (methodCount - (methodRun types methodCount 0).first) := by
  rw [flatMap_positions_range hsorted, methodRun_of_size_le (Nat.le_refl _)]

/-- **A method lies in the run of its owner only.** -/
theorem IsOwner.mem_positions_iff (h : IsOwner types methodCount p o) :
    p ∈ (methodRun types methodCount i).positions ↔ o = i + 1 := by
  constructor
  · intro hp
    obtain ⟨j, rfl⟩ : ∃ j, o = j + 1 := ⟨o - 1, by have := h.last i hp; omega⟩
    have hle : i ≤ j := Nat.lt_succ_iff.mp (h.last i hp)
    rcases Nat.eq_or_lt_of_le hle with rfl | hlt
    · rfl
    · have hstop := stop_methodRun hsorted methodCount i
      have hfirst : (methodRun types methodCount (i + 1)).first ≤
          (methodRun types methodCount j).first := first_methodRun_le hsorted methodCount hlt
      have hpi := Run.mem_positions.mp hp
      have hpj := Run.mem_positions.mp (h.mem j rfl)
      omega
  · intro ho
    exact h.mem i ho

end Sorted

end AliasStubs
