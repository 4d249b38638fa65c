import AliasStubs.Proofs.Metadata.Walk

/-!
# Step by step over a table

A walk over a table is asked for one row after the other, and at any time for how many it still
promises. It carries the offset of the next row, while a row that is looked up is found by its
number alone. As long as every row so far could be read, the offset is the one that belongs to the
number, so each step yields the row that is looked up, and the promise falls by one. The first row
that cannot be read is yielded as its failure; behind it, as behind the last row, there is nothing
more to come, and nothing more is promised.

The bytes of the table are any bytes: the row count need not agree with them, nor with the layout.

## Main definitions

* `Table.Readable` : the rows up to a number can be looked up.
* `Table.Cursor.after` : the place after so many steps.
* `Table.yielded?`, `Table.promised` : what a step yields, and what the walk promises before it.

## Main results

* `Table.Cursor.after_of_readable` : the offset of the walk is the one that belongs to the number.
* `Table.Cursor.rowCount_le_after` : behind a failure the walk is over.
* `Table.steps_yield_lookups` : **the walk yields the rows that are looked up**, and its promise is
  kept.
-/

namespace AliasStubs.Table

variable {α : Type} [TableRow α] {t : Table α} {n : Nat}

/-- The first `n` rows can be looked up. -/
def Readable (t : Table α) (n : Nat) : Prop :=
  ∀ rid, 1 ≤ rid → rid ≤ n → ∃ r, t.get rid = .ok r

/-- The place after `n` steps of the walk. Where there is no step, the walk stays. -/
def Cursor.after (t : Table α) : (n : Nat) → Cursor
  | 0 => start
  | n + 1 =>
    match (after t n).next t with
    | some (_, c) => c
    | none => after t n

/-- What the walk yields behind `n` steps, if anything. -/
def yielded? (t : Table α) (n : Nat) : Option (Except Failure α) :=
  ((Cursor.after t n).next t).map (·.1)

/-- What the walk promises after `n` steps. -/
def promised (t : Table α) (n : Nat) : Nat :=
  (Cursor.after t n).remaining t

/-! ### Rows that can be looked up -/

theorem readable_zero : t.Readable 0 :=
  fun _ hpos hle => absurd hpos (by omega)

theorem readable_succ_iff : t.Readable (n + 1) ↔ t.Readable n ∧ ∃ r, t.get (n + 1) = .ok r := by
  constructor
  · intro h
    exact ⟨fun rid hpos hle => h rid hpos (by omega), h (n + 1) (by omega) (by omega)⟩
  · rintro ⟨h, hlast⟩ rid hpos hle
    by_cases heq : rid = n + 1
    · exact heq ▸ hlast
    · exact h rid hpos (by omega)

theorem Readable.mono {m : Nat} (h : t.Readable n) (hle : m ≤ n) : t.Readable m :=
  fun rid hpos hm => h rid hpos (Nat.le_trans hm hle)

/-- There are no more rows than the table promises. -/
theorem Readable.le_rowCount (h : t.Readable n) : n ≤ t.rowCount := by
  cases n with
  | zero => exact Nat.zero_le _
  | succ n =>
      obtain ⟨r, hr⟩ := h (n + 1) (by omega) (Nat.le_refl _)
      refine Nat.not_lt.mp fun hlt => ?_
      rw [get, if_pos (.inr hlt)] at hr
      cases hr

/-! ### Where the walk comes to -/

namespace Cursor

/-- A row that is looked up is yielded at the place where it starts, and the walk goes on behind
it. -/
theorem next_of_get {r : α} (hlt : n < t.rowCount) (h : t.get (n + 1) = .ok r) :
    next ⟨n, n * t.rowSize⟩ t = some (.ok r, ⟨n + 1, (n + 1) * t.rowSize⟩) := by
  rw [get_succ hlt, Reader.atOffset] at h
  split at h
  · rename_i offset hread
    cases h
    have hoffset : offset = (n + 1) * t.rowSize := by
      rw [TableRow.next_of_read hread, Nat.succ_mul, rowSize]
    rw [next_of_read hlt hread, hoffset]
  · cases h

/-- A failure to look a row up is yielded, too, and the walk is over. -/
theorem next_of_get_error {e : Failure} (hlt : n < t.rowCount) (h : t.get (n + 1) = .error e) :
    ∃ offset, next ⟨n, n * t.rowSize⟩ t = some (.error e, ⟨t.rowCount, offset⟩) := by
  rw [get_succ hlt, Reader.atOffset] at h
  split at h
  · cases h
  · rename_i offset hread
    cases h
    exact ⟨offset, next_of_error hlt hread⟩

theorem after_of_next {c : Cursor} {r : Except Failure α} (h : (after t n).next t = some (r, c)) :
    after t (n + 1) = c := by
  rw [after, h]

/-- A walk that is over stays where it is. -/
theorem after_of_next_eq_none (h : (after t n).next t = none) : after t (n + 1) = after t n := by
  rw [after, h]

/-- It stays there for any number of steps. -/
theorem after_add_of_next_eq_none (h : (after t n).next t = none) (k : Nat) :
    after t (n + k) = after t n := by
  induction k with
  | zero => rfl
  | succ k ih => rw [← ih, ← Nat.add_assoc, after_of_next_eq_none (ih ▸ h)]

/-- **As long as all rows can be looked up**, the walk is at the row of its number, and at the
offset that belongs to this number. -/
theorem after_of_readable (h : t.Readable n) : after t n = ⟨n, n * t.rowSize⟩ := by
  induction n with
  | zero =>
      rw [Nat.zero_mul]
      rfl
  | succ n ih =>
      obtain ⟨hn, r, hr⟩ := readable_succ_iff.mp h
      have hnext := next_of_get h.le_rowCount hr
      rw [← ih hn] at hnext
      exact after_of_next hnext

/-- **Behind a row that cannot be looked up** the walk is over. -/
theorem rowCount_le_after (h : ¬ t.Readable n) : t.rowCount ≤ (after t n).row := by
  induction n with
  | zero => exact absurd readable_zero h
  | succ n ih =>
      by_cases hn : t.Readable n
      · have hplace := after_of_readable hn
        by_cases hlt : n < t.rowCount
        · cases hget : t.get (n + 1) with
          | ok r => exact absurd (readable_succ_iff.mpr ⟨hn, r, hget⟩) h
          | error e =>
              obtain ⟨offset, hnext⟩ := next_of_get_error hlt hget
              rw [← hplace] at hnext
              exact Nat.le_of_eq (congrArg Cursor.row (after_of_next hnext)).symm
        · have hle : t.rowCount ≤ (after t n).row := by
            rw [hplace]
            exact Nat.not_lt.mp hlt
          rw [after_of_next_eq_none (next_of_le hle)]
          exact hle
      · rw [after_of_next_eq_none (next_of_le (ih hn))]
        exact ih hn

end Cursor

/-! ### What it yields and promises -/

/-- A step yields the row that is looked up next, if all before it could be. -/
theorem yielded?_eq_some_iff {r : Except Failure α} :
    t.yielded? n = some r ↔ t.Readable n ∧ n < t.rowCount ∧ t.get (n + 1) = r := by
  by_cases hn : t.Readable n
  · rw [yielded?, Cursor.after_of_readable hn]
    by_cases hlt : n < t.rowCount
    · simp only [hn, hlt, true_and]
      cases hget : t.get (n + 1) with
      | ok a => simp [Cursor.next_of_get hlt hget]
      | error e =>
          obtain ⟨offset, hnext⟩ := Cursor.next_of_get_error hlt hget
          simp [hnext]
    · rw [Cursor.next_of_le (Nat.not_lt.mp hlt)]
      exact iff_of_false nofun fun h => hlt h.2.1
  · rw [yielded?, Cursor.next_of_le (Cursor.rowCount_le_after hn)]
    exact iff_of_false nofun fun h => hn h.1

/-- What is promised is the number of rows that are left. -/
theorem promised_of_readable (h : t.Readable n) : t.promised n = t.rowCount - n := by
  rw [promised, Cursor.after_of_readable h, Cursor.remaining]

/-- Behind a failure nothing is promised. -/
theorem promised_of_not_readable (h : ¬ t.Readable n) : t.promised n = 0 :=
  Nat.sub_eq_zero_of_le (Cursor.rowCount_le_after h)

/-! ### The whole walk -/

/-- From any place on, the walk yields what its steps yield. The invariant is that the results so
far are those of the steps so far. -/
theorem Cursor.getElem?_walk_after {done : Array (Except Failure α × Nat)} (hsize : done.size = n)
    (hdone : ∀ i < n, done[i]? = (t.yielded? i).map fun r => (r, t.promised (i + 1))) (i : Nat) :
    ((after t n).walk t done)[i]? = (t.yielded? i).map fun r => (r, t.promised (i + 1)) := by
  induction hm : (after t n).remaining t using Nat.strongRecOn generalizing n done with
  | ind m ih =>
      cases hnext : (after t n).next t with
      | none =>
          rw [walk_of_next_eq_none hnext]
          by_cases hi : i < n
          · exact hdone i hi
          · obtain ⟨k, rfl⟩ := Nat.exists_eq_add_of_le (Nat.not_lt.mp hi)
            rw [Array.getElem?_eq_none (by omega), yielded?, after_add_of_next_eq_none hnext, hnext]
            rfl
      | some step =>
          obtain ⟨r, c⟩ := step
          have hafter := after_of_next hnext
          have hyielded : t.yielded? n = some r := by rw [yielded?, hnext]; rfl
          rw [walk_of_next hnext, ← hafter]
          refine ih _ ?_ (by rw [Array.size_push, hsize]) (fun j hj => ?_) rfl
          · rw [← hm, hafter]
            exact remaining_next hnext
          · by_cases hlast : j = n
            · rw [hlast, ← hsize, Array.getElem?_push_size, hsize, hyielded]
              rfl
            · rw [Array.getElem?_push, if_neg (by omega)]
              exact hdone j (by omega)

/-- The results of the whole walk are those of its steps. -/
theorem getElem?_results (t : Table α) (i : Nat) :
    t.results[i]? = (t.yielded? i).map fun r => (r, t.promised (i + 1)) :=
  Cursor.getElem?_walk_after (n := 0) rfl (fun _ h => absurd h (Nat.not_lt_zero _)) i

/-- A step that yields nothing is behind all results. -/
theorem size_results_le (h : t.yielded? n = none) : t.results.size ≤ n := by
  rw [← Array.getElem?_eq_none_iff, getElem?_results, h]
  rfl

/-- **The walk yields the rows that are looked up**, one after the other, up to and including the
first that fails. All results together are what the steps yield, with what is promised behind each.
If no row fails, there are as many as the table has rows. Before every step, at least as many
results are promised as are still to come: all rows that are left as long as none has failed, and
none after that. -/
theorem steps_yield_lookups (t : Table α) :
    (∀ n r, t.yielded? n = some r ↔ t.Readable n ∧ n < t.rowCount ∧ t.get (n + 1) = r) ∧
    (∀ n, t.results[n]? = (t.yielded? n).map fun r => (r, t.promised (n + 1))) ∧
    (t.Readable t.rowCount → t.results.size = t.rowCount) ∧
    ∀ n, t.results.size - n ≤ t.promised n ∧
      (t.Readable n → t.promised n = t.rowCount - n) ∧ (¬ t.Readable n → t.promised n = 0) := by
  have hover (n : Nat) (h : ¬ (t.Readable n ∧ n < t.rowCount)) : t.results.size ≤ n := by
    refine size_results_le (Option.eq_none_iff_forall_ne_some.mpr fun r hr => h ?_)
    obtain ⟨hn, hlt, -⟩ := yielded?_eq_some_iff.mp hr
    exact ⟨hn, hlt⟩
  refine ⟨fun n r => yielded?_eq_some_iff, t.getElem?_results, fun hall => ?_, fun n =>
    ⟨?_, promised_of_readable, promised_of_not_readable⟩⟩
  · have hle : t.results.size ≤ t.rowCount := hover _ fun h => Nat.lt_irrefl _ h.2
    refine Nat.le_antisymm hle (Nat.not_lt.mp fun hlt => ?_)
    have hreadable := hall.mono (Nat.le_of_lt hlt)
    have hnone : t.results[t.results.size]? = none := Array.getElem?_eq_none (Nat.le_refl _)
    rw [getElem?_results, yielded?_eq_some_iff.mpr ⟨hreadable, hlt, rfl⟩] at hnone
    cases hnone
  · by_cases hn : t.Readable n
    · have hle := hover t.rowCount fun h => Nat.lt_irrefl _ h.2
      rw [promised_of_readable hn]
      omega
    · have hle := hover n fun h => hn h.1
      omega

end AliasStubs.Table
