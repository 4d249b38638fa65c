/-!
# Splitting at the last separator

## Main definitions

* `splitAtLast?` : what stands before and after the last occurrence of a character.

## Main results

* `splitAtLast?_eq_some_iff` : the parts make up the whole, and the second one is free of the
  separator.
-/

namespace AliasStubs

/-- What stands before and after the last occurrence of `sep`, if there is one. -/
def splitAtLast? (sep : Char) (cs : List Char) : Option (List Char × List Char) :=
  match cs.reverse.dropWhile (· ≠ sep) with
  | [] => none
  | _ :: before => some (before.reverse, (cs.reverse.takeWhile (· ≠ sep)).reverse)

/-- No character of a text without the separator is the separator. -/
theorem forall_ne_of_not_mem {sep : Char} {cs : List Char} (h : sep ∉ cs) :
    ∀ c ∈ cs.reverse, decide (c ≠ sep) = true :=
  fun _ hc => decide_eq_true fun hcs => h (hcs ▸ List.mem_reverse.mp hc)

/-- A text without the separator has no parts. -/
theorem splitAtLast?_of_not_mem {sep : Char} {cs : List Char} (h : sep ∉ cs) :
    splitAtLast? sep cs = none := by
  have hnil : cs.reverse.dropWhile (· ≠ sep) = [] := by
    rw [← List.append_nil cs.reverse, List.dropWhile_append_of_pos (forall_ne_of_not_mem h)]
    rfl
  rw [splitAtLast?, hnil]

/-- A text has its parts at a separator behind which there is no other. -/
theorem splitAtLast?_append {sep : Char} (before : List Char) {after : List Char}
    (h : sep ∉ after) : splitAtLast? sep (before ++ sep :: after) = some (before, after) := by
  have hrev : (before ++ sep :: after).reverse = after.reverse ++ sep :: before.reverse := by
    simp
  have hall := forall_ne_of_not_mem h
  rw [splitAtLast?, hrev, List.takeWhile_append_of_pos hall, List.dropWhile_append_of_pos hall]
  simp

/-- A text that holds a character has a last occurrence of it. -/
theorem exists_last_occurrence {sep : Char} {cs : List Char} (h : sep ∈ cs) :
    ∃ before after, cs = before ++ sep :: after ∧ sep ∉ after := by
  induction cs with
  | nil => cases h
  | cons c cs ih =>
    by_cases hmem : sep ∈ cs
    · obtain ⟨before, after, rfl, hfree⟩ := ih hmem
      exact ⟨c :: before, after, rfl, hfree⟩
    · rcases List.mem_cons.mp h with rfl | hcs
      · exact ⟨[], cs, rfl, hmem⟩
      · exact absurd hcs hmem

/-- The parts make up the whole, and the second one is free of the separator. -/
theorem splitAtLast?_eq_some_iff {sep : Char} {cs before after : List Char} :
    splitAtLast? sep cs = some (before, after) ↔ cs = before ++ sep :: after ∧ sep ∉ after := by
  constructor
  · intro h
    have hmem : sep ∈ cs := by
      by_cases hmem : sep ∈ cs
      · exact hmem
      · rw [splitAtLast?_of_not_mem hmem] at h
        cases h
    obtain ⟨first, last, rfl, hfree⟩ := exists_last_occurrence hmem
    rw [splitAtLast?_append first hfree] at h
    obtain ⟨rfl, rfl⟩ := Prod.mk.inj (Option.some.inj h)
    exact ⟨rfl, hfree⟩
  · rintro ⟨rfl, hfree⟩
    exact splitAtLast?_append before hfree

end AliasStubs
