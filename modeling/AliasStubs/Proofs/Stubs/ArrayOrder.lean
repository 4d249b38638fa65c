import AliasStubs.Stubs.Spelling

/-!
# The order of rank specifiers

Nested arrays are spelled with one rank specifier each, `[]` for one dimension, `[,]` for two and so
on. C# reads the **leftmost** specifier as the outermost array: `int[][,]` is an array of one
dimension whose elements are matrices.

A type is spelled element first, so the specifier of the element's own array comes before that of
the array around it, and the leftmost specifier is the one of the innermost array. The text names
the ranks in reverse, and C# reads another type from it, unless the ranks are the same in both
directions. A single array and a nesting of arrays of equal ranks do not show the difference.

## Main definitions

* `TypeDescriptor.arrayOf` : nested arrays of given ranks, the outermost first.
* `rankSpecifiers` : the specifiers of a list of ranks, from left to right.
* `readRanks`, `TypeDescriptor.readArray` : C#'s rule for reading them.

## Main results

* `readRanks_rankSpecifiers` : the rule reads the ranks in the order in which they are written.
* `TypeDescriptor.spelling_arrayOf` : the ranks are written in reverse.
* `TypeDescriptor.arrayOf_read_iff` : **nested arrays are spelled as C# reads them exactly if their
  ranks are a palindrome**.
-/

namespace AliasStubs

/-! ### Rank specifiers -/

/-- The specifiers of several ranks, from left to right. -/
def rankSpecifiers (ranks : List Nat) : String :=
  String.join (ranks.map rankSpecifier)

/-- Reads rank specifiers from left to right, given the rank read so far of the one that is open, if
one is. -/
def readRanksFrom : (isOpen : Option Nat) → List Char → Option (List Nat)
  | none, [] => some []
  | none, '[' :: cs => readRanksFrom (some 1) cs
  | some rank, ',' :: cs => readRanksFrom (some (rank + 1)) cs
  | some rank, ']' :: cs => (readRanksFrom none cs).map (rank :: ·)
  | _, _ => none

/-- Reads rank specifiers from left to right. -/
def readRanks (cs : List Char) : Option (List Nat) :=
  readRanksFrom none cs

/-- Every comma adds a dimension. -/
theorem readRanksFrom_commas (rank commas : Nat) (cs : List Char) :
    readRanksFrom (some rank) (List.replicate commas ',' ++ ']' :: cs) =
      (readRanksFrom none cs).map ((rank + commas) :: ·) := by
  induction commas generalizing rank with
  | zero => rfl
  | succ commas ih =>
      rw [List.replicate_succ, List.cons_append, readRanksFrom, ih, Nat.add_assoc,
        Nat.add_comm 1 commas]

/-- A specifier is read as its rank. -/
theorem readRanks_rankSpecifier {rank : Nat} (h : 1 ≤ rank) (cs : List Char) :
    readRanks ((rankSpecifier rank).toList ++ cs) = (readRanks cs).map (rank :: ·) := by
  have htext : (rankSpecifier rank).toList ++ cs =
      '[' :: (List.replicate (rank - 1) ',' ++ ']' :: cs) := by
    simp [rankSpecifier]
  have hrank : 1 + (rank - 1) = rank := by omega
  rw [htext, readRanks, readRanksFrom, readRanksFrom_commas, hrank, readRanks]

/-- **Ranks are read in the order in which they are written.** -/
theorem readRanks_rankSpecifiers {ranks : List Nat} (h : ∀ r ∈ ranks, 1 ≤ r) :
    readRanks (rankSpecifiers ranks).toList = some ranks := by
  induction ranks with
  | nil => rfl
  | cons r rs ih =>
      obtain ⟨hr, hrs⟩ := List.forall_mem_cons.mp h
      have htail := ih hrs
      rw [rankSpecifiers] at htail ⊢
      rw [List.map_cons, String.join_cons, String.toList_append, readRanks_rankSpecifier hr, htail]
      rfl

/-- Specifiers tell their ranks. -/
theorem rankSpecifiers_inj {rs ss : List Nat} (hr : ∀ r ∈ rs, 1 ≤ r) (hs : ∀ s ∈ ss, 1 ≤ s) :
    rankSpecifiers rs = rankSpecifiers ss ↔ rs = ss := by
  constructor
  · intro h
    have hread := readRanks_rankSpecifiers hr
    rw [h, readRanks_rankSpecifiers hs] at hread
    exact (Option.some.inj hread).symm
  · rintro rfl
    rfl

/-! ### Nested arrays -/

namespace TypeDescriptor

/-- Nested arrays over `element`, with their ranks from the outermost to the innermost. -/
def arrayOf (element : TypeDescriptor) : (ranks : List Nat) → TypeDescriptor
  | [] => element
  | r :: rs => array (arrayOf element rs) r

/-- Reads a text as nested arrays over `element`, whose text is known: the leftmost specifier is the
outermost array. -/
def readArray (element : TypeDescriptor) (text : String) : Option TypeDescriptor :=
  (readRanks (text.toList.drop element.spelling.toList.length)).map element.arrayOf

/-- Different ranks make different arrays. -/
theorem arrayOf_inj {e : TypeDescriptor} {rs ss : List Nat} (hlen : rs.length = ss.length)
    (h : e.arrayOf rs = e.arrayOf ss) : rs = ss := by
  induction rs generalizing ss with
  | nil => exact (List.length_eq_zero_iff.mp hlen.symm).symm
  | cons r rs ih =>
      cases ss with
      | nil => cases hlen
      | cons s ss =>
          obtain ⟨htail, rfl⟩ := TypeDescriptor.array.inj h
          rw [ih (Nat.succ.inj hlen) htail]

/-- **The ranks are written in reverse**: the innermost array comes first. -/
theorem spelling_arrayOf (e : TypeDescriptor) (ranks : List Nat) :
    (e.arrayOf ranks).spelling = e.spelling ++ rankSpecifiers ranks.reverse := by
  induction ranks with
  | nil => simp [arrayOf, rankSpecifiers]
  | cons r rs ih =>
      rw [arrayOf, spelling, ih, String.append_assoc, List.reverse_cons, rankSpecifiers,
        rankSpecifiers, List.map_append, String.join_append, List.map_singleton,
        String.join_cons, String.join_nil, String.append_empty]

example : ((primitive .int32).arrayOf [1, 2]).spelling = "int[,][]" := by
  decide

/-- C# reads nested arrays with their ranks reversed. -/
theorem readArray_spelling_arrayOf (e : TypeDescriptor) {ranks : List Nat}
    (h : ∀ r ∈ ranks, 1 ≤ r) :
    e.readArray (e.arrayOf ranks).spelling = some (e.arrayOf ranks.reverse) := by
  have hrev : ∀ r ∈ ranks.reverse, 1 ≤ r := fun r hr => h r (List.mem_reverse.mp hr)
  rw [readArray, spelling_arrayOf, String.toList_append, List.drop_left,
    readRanks_rankSpecifiers hrev]
  rfl

/-- **Nested arrays are spelled as C# reads them exactly if their ranks are a palindrome.** The
ranks stand in the text from the innermost array to the outermost; so the text is the one with the
outermost first, and reading it gives the same nesting, exactly if the order makes no difference. -/
theorem arrayOf_read_iff (e : TypeDescriptor) (ranks : List Nat) (h : ∀ r ∈ ranks, 1 ≤ r) :
    (e.arrayOf ranks).spelling = e.spelling ++ rankSpecifiers ranks.reverse ∧
      ((e.arrayOf ranks).spelling = e.spelling ++ rankSpecifiers ranks ↔ ranks.reverse = ranks) ∧
      (e.readArray (e.arrayOf ranks).spelling = some (e.arrayOf ranks) ↔
        ranks.reverse = ranks) := by
  have hrev : ∀ r ∈ ranks.reverse, 1 ≤ r := fun r hr => h r (List.mem_reverse.mp hr)
  refine ⟨spelling_arrayOf e ranks, ?_, ?_⟩
  · rw [spelling_arrayOf, String.append_right_inj, rankSpecifiers_inj hrev h]
  · rw [readArray_spelling_arrayOf e h]
    constructor
    · intro hread
      exact arrayOf_inj List.length_reverse (Option.some.inj hread)
    · intro hpal
      rw [hpal]

/-- An array of matrices is spelled like a matrix of arrays. -/
theorem arrayOf_read_vector_of_matrix :
    ((primitive .int32).arrayOf [1, 2]).spelling ≠
        (primitive .int32).spelling ++ rankSpecifiers [1, 2] ∧
      (primitive .int32).readArray ((primitive .int32).arrayOf [1, 2]).spelling ≠
        some ((primitive .int32).arrayOf [1, 2]) := by
  obtain ⟨-, htext, hread⟩ := arrayOf_read_iff (primitive .int32) [1, 2] (by decide)
  exact ⟨fun h => absurd (htext.mp h) (by decide), fun h => absurd (hread.mp h) (by decide)⟩

end TypeDescriptor

end AliasStubs
