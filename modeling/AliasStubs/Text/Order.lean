/-!
# Texts in order

Texts are ordered by the code points of their characters, which is also the order of their bytes
in UTF-8.

## Main definitions

* `sortedDistinct` : the texts of a list in ascending order, each once.

## Main results

* `mem_sortedDistinct` : no text is lost and none is added.
* `pairwise_sortedDistinct` : every text is less than all that follow it.
-/

namespace AliasStubs

/-- The texts of a list in ascending order, each once. -/
def sortedDistinct (texts : List String) : List String :=
  (texts.mergeSort fun a b => decide (a ≤ b)).eraseReps

/-! ### Runs of equal texts -/

/-- What was put aside comes first. -/
theorem eraseReps_loop_eq (a : String) (l done : List String) :
    List.eraseRepsBy.loop (· == ·) a l done =
      done.reverse ++ List.eraseRepsBy.loop (· == ·) a l [] := by
  induction l generalizing a done with
  | nil => simp [List.eraseRepsBy.loop]
  | cons b l ih =>
    simp only [List.eraseRepsBy.loop]
    split
    · exact ih a done
    · rw [ih b (a :: done), ih b [a]]
      simp

/-- The first text of a run stays. -/
theorem eraseReps_cons_self (a : String) (l : List String) :
    (a :: a :: l).eraseReps = (a :: l).eraseReps := by
  simp [List.eraseReps, List.eraseRepsBy, List.eraseRepsBy.loop]

/-- A text that differs from the next one stays. -/
theorem eraseReps_cons_of_ne {a b : String} (h : a ≠ b) (l : List String) :
    (a :: b :: l).eraseReps = a :: (b :: l).eraseReps := by
  have hne : (a == b) = false := beq_false_of_ne h
  simp only [List.eraseReps, List.eraseRepsBy, List.eraseRepsBy.loop, hne]
  exact eraseReps_loop_eq b l [a]

/-- Erasing repetitions neither loses nor adds a text. -/
theorem mem_eraseReps {x : String} {l : List String} : x ∈ l.eraseReps ↔ x ∈ l := by
  induction l with
  | nil => rfl
  | cons a l ih =>
    cases l with
    | nil => rfl
    | cons b l =>
      by_cases h : a = b
      · subst h
        rw [eraseReps_cons_self, ih]
        simp
      · rw [eraseReps_cons_of_ne h, List.mem_cons, ih, ← List.mem_cons]

/-- A list in ascending order without repetitions ascends strictly. -/
theorem pairwise_eraseReps {l : List String} (h : l.Pairwise (· ≤ ·)) :
    l.eraseReps.Pairwise (· < ·) := by
  induction l with
  | nil => exact List.Pairwise.nil
  | cons a l ih =>
    obtain ⟨hle, htail⟩ := List.pairwise_cons.mp h
    cases l with
    | nil => exact List.pairwise_singleton _ _
    | cons b l =>
      by_cases hab : a = b
      · subst hab
        rw [eraseReps_cons_self]
        exact ih htail
      · rw [eraseReps_cons_of_ne hab]
        refine List.pairwise_cons.mpr ⟨fun x hx => ?_, ih htail⟩
        have hbx : b ≤ x := by
          rcases List.mem_cons.mp (mem_eraseReps.mp hx) with rfl | hx
          · exact String.le_refl x
          · exact (List.pairwise_cons.mp htail).1 x hx
        have hba : ¬ b ≤ a := fun hba =>
          hab (String.le_antisymm (hle b (List.mem_cons_self ..)) hba)
        exact String.not_le.mp fun hxa => hba (String.le_trans hbx hxa)

/-! ### Sorting -/

/-- No text is lost and none is added. -/
@[simp] theorem mem_sortedDistinct {x : String} {texts : List String} :
    x ∈ sortedDistinct texts ↔ x ∈ texts := by
  rw [sortedDistinct, mem_eraseReps, List.mem_mergeSort]

/-- Every text is less than all that follow it. -/
theorem pairwise_sortedDistinct (texts : List String) :
    (sortedDistinct texts).Pairwise (· < ·) := by
  refine pairwise_eraseReps ((List.pairwise_mergeSort ?_ ?_ texts).imp of_decide_eq_true)
  · intro a b c hab hbc
    exact decide_eq_true (String.le_trans (of_decide_eq_true hab) (of_decide_eq_true hbc))
  · intro a b
    rcases String.le_total a b with h | h <;> simp [h]

end AliasStubs
