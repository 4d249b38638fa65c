import Std.Data.HashMap

/-!
# Groups of values by key

Rows of one table often belong to rows of another. A grouping collects values under the keys they
belong to and keeps the order in which they came.

## Main definitions

* `Grouping` : values under keys, `Grouping.ofList` the grouping of a list.
* `Grouping.get` : the values under a key; `Grouping.last?` : the last of them.

## Main results

* `Grouping.get_ofList` : a group is the values of its key, in the order of the list.
-/

namespace AliasStubs

/-- Values under the keys they belong to. Each group is kept with the latest value first. -/
structure Grouping (κ β : Type) [BEq κ] [Hashable κ] where
  /-- The groups, each in reverse. -/
  groups : Std.HashMap κ (List β)

namespace Grouping

variable {κ β : Type} [BEq κ] [Hashable κ]

/-- The grouping without values. -/
def empty : Grouping κ β :=
  ⟨∅⟩

/-- Puts a value under a key, behind those that are there. -/
def add (g : Grouping κ β) (k : κ) (b : β) : Grouping κ β :=
  ⟨g.groups.insert k (b :: g.groups.getD k [])⟩

/-- The values under a key. -/
def get (g : Grouping κ β) (k : κ) : List β :=
  (g.groups.getD k []).reverse

/-- The last value under a key. -/
def last? (g : Grouping κ β) (k : κ) : Option β :=
  (g.groups.getD k []).head?

/-- The grouping of a list. -/
def ofList (l : List (κ × β)) : Grouping κ β :=
  l.foldl (fun g (k, b) => g.add k b) empty

/-! ### Groups are what was put under their key -/

@[simp] theorem get_empty (k : κ) : (empty : Grouping κ β).get k = [] := by
  simp [get, empty]

/-- The last value is the last of the group. -/
theorem last?_eq_getLast? (g : Grouping κ β) (k : κ) : g.last? k = (g.get k).getLast? := by
  simp [last?, get]

variable [LawfulBEq κ]

/-- A value that is added comes last in its group and changes no other. -/
theorem get_add (g : Grouping κ β) (k : κ) (b : β) (k' : κ) :
    (g.add k b).get k' = g.get k' ++ if k == k' then [b] else [] := by
  simp only [add, get, Std.HashMap.getD_insert]
  by_cases h : k == k'
  · rw [if_pos h, if_pos h, eq_of_beq h, List.reverse_cons]
  · rw [if_neg h, if_neg h, List.append_nil]

/-- Adding all values of a list puts those of a key behind its group. -/
theorem get_foldl_add (l : List (κ × β)) (g : Grouping κ β) (k : κ) :
    (l.foldl (fun g (k, b) => g.add k b) g).get k =
      g.get k ++ (l.filter (·.1 == k)).map (·.2) := by
  induction l generalizing g with
  | nil => simp
  | cons e l ih =>
    rw [List.foldl_cons, ih, get_add, List.append_assoc, List.filter_cons]
    by_cases h : e.1 == k
    · simp [h]
    · simp [h]

/-- A group is the values of its key, in order. -/
theorem get_ofList (l : List (κ × β)) (k : κ) :
    (ofList l).get k = (l.filter (·.1 == k)).map (·.2) := by
  rw [ofList, get_foldl_add, get_empty, List.nil_append]

end Grouping

end AliasStubs
