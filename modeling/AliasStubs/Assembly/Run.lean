/-!
# Runs of rows

A row of one table owns a run of rows of another: those from the row in its list column up to the
one in the list column of the next owner. Columns that point outside the table are moved to its
ends, and a run that would end before it starts is empty.

## Main definitions

* `Run` : a half-open range of positions, counted from zero.
* `Run.between` : the run of a list column.
* `Run.rows` : the rows of a run.
-/

namespace AliasStubs

/-- A range of positions, counted from zero. -/
structure Run where
  /-- The first position. -/
  first : Nat
  /-- The position behind the last one. -/
  stop : Nat
  deriving DecidableEq, Repr

namespace Run

/-- The position of a row, which is counted from one, in a table of `size` rows. -/
def position (row size : Nat) : Nat :=
  min (row - 1) size

/-- The run from the row `start` up to the row `next?`, or up to the end, in a table of `size`
rows. -/
def between (start : Nat) (next? : Option Nat) (size : Nat) : Run :=
  let first := position start size
  let stop := match next? with
    | some next => position next size
    | none => size
  ⟨first, max stop first⟩

/-- The run of the `i`-th owner in a table of `size` rows. The column `list` of an owner is where
its run starts. -/
def ofOwner {α : Type} (owners : Array α) (list : α → Nat) (size : Nat) (i : Nat) : Run :=
  match owners[i]? with
  | some owner => between (list owner) (owners[i + 1]?.map list) size
  | none => ⟨size, size⟩

/-- The positions of a run. -/
def positions (r : Run) : List Nat :=
  List.range' r.first (r.stop - r.first)

/-- The rows of a run. -/
def rows {α : Type} (r : Run) (table : Array α) : List α :=
  (table.extract r.first r.stop).toList

/-- A run lies inside its table. -/
theorem between_bounds (start : Nat) (next? : Option Nat) (size : Nat) :
    (between start next? size).first ≤ (between start next? size).stop ∧
      (between start next? size).stop ≤ size := by
  unfold between position
  cases next? <;> constructor <;> simp only <;> omega

end Run

end AliasStubs
