import AliasStubs.Types.Name
import Mathlib.Logic.Basic
import Mathlib.Tactic.Tauto

/-!
# The suffix of a name

The name of a generic type ends in a grave accent and a numeral, the number of its parameters. Two
readings look for this suffix behind the last grave accent of a name. The text of a type leaves a
suffix of digits away, be there any digits or not; its arity is any number that stands there, if
need be behind a plus sign, as long as it is below `2 ^ 64`.

The two readings agree on a name if either both find no suffix, or the name is its own text with the
suffix behind it that its arity counts. They agree on every name but three kinds: a name that ends
in the grave accent itself, one whose number has a plus sign, and one whose number is too large.

## Main definitions

* `IsNumeral` : decimal digits, at least one.
* `NameSegment.Unsuffixed`, `NameSegment.Suffixed` : the two ways in which the readings agree.
* `NameSegment.EndsInNumber` : the names with a suffix.
* `NameSegment.EndsInAccent`, `NameSegment.EndsInSigned`, `NameSegment.EndsInHuge` : the three
  kinds of names on which they do not agree.

## Main results

* `NameSegment.simpleName_ne_iff` : what the text leaves away.
* `NameSegment.arity_of_number` : what the arity counts.
* `NameSegment.suffixed_iff` : when a suffix is read.
* `NameSegment.suffix_agreed_iff` : **the readings agree on all names but these three kinds**.
-/

namespace AliasStubs

/-- A **numeral**: decimal digits, at least one. -/
def IsNumeral (cs : List Char) : Prop :=
  cs ≠ [] ∧ ∀ c ∈ cs, c.isDigit = true

namespace NameSegment

variable {s : NameSegment} {before after : List Char}

/-- No suffix is read: the name is its own text and takes no arguments. -/
def Unsuffixed (s : NameSegment) : Prop :=
  s.simpleName = s.name ∧ s.arity = 0

/-- A suffix is read: the name is its text, a grave accent and a numeral of its arity. -/
def Suffixed (s : NameSegment) : Prop :=
  ∃ digits, IsNumeral digits ∧ s.name.toList = s.simpleName.toList ++ '\x60' :: digits ∧
    s.arity = Nat.ofDigitChars 10 digits 0

/-- The name ends in a grave accent and the numeral of a number that is not too large. -/
def EndsInNumber (s : NameSegment) : Prop :=
  ∃ before digits, s.name.toList = before ++ '\x60' :: digits ∧ IsNumeral digits ∧
    Nat.ofDigitChars 10 digits 0 < UInt64.size

/-- The name ends in a grave accent. -/
def EndsInAccent (s : NameSegment) : Prop :=
  ∃ before, s.name.toList = before ++ ['\x60']

/-- The name ends in a grave accent, a plus sign and the numeral of a number that counts. -/
def EndsInSigned (s : NameSegment) : Prop :=
  ∃ before digits, s.name.toList = before ++ '\x60' :: '+' :: digits ∧ IsNumeral digits ∧
    0 < Nat.ofDigitChars 10 digits 0 ∧ Nat.ofDigitChars 10 digits 0 < UInt64.size

/-- The name ends in a grave accent and the numeral of a number that is too large. -/
def EndsInHuge (s : NameSegment) : Prop :=
  ∃ before digits, s.name.toList = before ++ '\x60' :: digits ∧ IsNumeral digits ∧
    UInt64.size ≤ Nat.ofDigitChars 10 digits 0

/-! ### Digits behind the last grave accent -/

/-- There is no grave accent among digits. -/
theorem accent_not_mem {digits : List Char} (h : ∀ c ∈ digits, c.isDigit = true) :
    '\x60' ∉ digits :=
  fun hmem => absurd (h _ hmem) (by decide)

/-- Nor is there one in a number. -/
theorem accent_not_mem_number {digits : List Char} (hafter : after = digits ∨ after = '+' :: digits)
    (h : IsNumeral digits) : '\x60' ∉ after := by
  rcases hafter with rfl | rfl
  · exact accent_not_mem h.2
  · rw [List.mem_cons]
    exact not_or.mpr ⟨by decide, accent_not_mem h.2⟩

/-- A name has its parts at a grave accent behind which there is no other. -/
theorem parts?_eq_some_iff : s.parts? = some (before, after) ↔
    s.name.toList = before ++ '\x60' :: after ∧ '\x60' ∉ after :=
  splitAtLast?_eq_some_iff

/-- What stands behind the last grave accent is told by the name. -/
theorem after_unique {before' after' : List Char}
    (h : s.name.toList = before ++ '\x60' :: after) (hfree : '\x60' ∉ after)
    (h' : s.name.toList = before' ++ '\x60' :: after') (hfree' : '\x60' ∉ after') :
    after = after' := by
  have hparts := parts?_eq_some_iff.mpr ⟨h, hfree⟩
  have hparts' := parts?_eq_some_iff.mpr ⟨h', hfree'⟩
  exact (Prod.mk.inj (Option.some.inj (hparts.symm.trans hparts'))).2

/-- A number is written as a numeral, if need be behind a plus sign. -/
theorem decimal?_eq_some_iff {cs : List Char} {n : Nat} : decimal? cs = some n ↔
    ∃ digits, (cs = digits ∨ cs = '+' :: digits) ∧ IsNumeral digits ∧
      Nat.ofDigitChars 10 digits 0 = n := by
  have hread (digits : List Char) :
      (if digits ≠ [] ∧ digits.all Char.isDigit then some (decimal digits) else none) = some n ↔
        IsNumeral digits ∧ Nat.ofDigitChars 10 digits 0 = n := by
    rw [Option.ite_none_right_eq_some, List.all_eq_true, Option.some.injEq]
    rfl
  unfold decimal?
  dsimp only
  rw [hread]
  split
  · rename_i digits
    constructor
    · intro h
      exact ⟨digits, .inr rfl, h⟩
    · rintro ⟨digits', rfl | h, hnumeral, hn⟩
      · exact absurd (hnumeral.2 '+' List.mem_cons_self) (by decide)
      · obtain ⟨-, rfl⟩ := List.cons.inj h
        exact ⟨hnumeral, hn⟩
  · rename_i hplus
    constructor
    · intro h
      exact ⟨cs, .inl rfl, h⟩
    · rintro ⟨digits, rfl | rfl, h⟩
      · exact h
      · exact absurd rfl (hplus digits)

/-! ### What the text leaves away -/

/-- The text of a name that ends in a grave accent and digits is what stands before them. -/
theorem simpleName_of_digits {digits : List Char}
    (hname : s.name.toList = before ++ '\x60' :: digits) (h : ∀ c ∈ digits, c.isDigit = true) :
    s.simpleName = String.ofList before := by
  have hparts := parts?_eq_some_iff.mpr ⟨hname, accent_not_mem h⟩
  simp only [simpleName, hparts, if_pos (List.all_eq_true.mpr h)]

/-- **The text leaves something away** exactly if the name ends in a grave accent and digits, be
there any or not. -/
theorem simpleName_ne_iff : s.simpleName ≠ s.name ↔
    ∃ before digits, s.name.toList = before ++ '\x60' :: digits ∧
      ∀ c ∈ digits, c.isDigit = true := by
  constructor
  · intro h
    unfold simpleName at h
    split at h
    · rename_i before after hparts
      split at h
      · rename_i hdigits
        exact ⟨before, after, (parts?_eq_some_iff.mp hparts).1, List.all_eq_true.mp hdigits⟩
      · exact absurd rfl h
    · exact absurd rfl h
  · rintro ⟨before, digits, hname, hdigits⟩ heq
    have hlength := congrArg (·.toList.length) heq
    simp only [simpleName_of_digits hname hdigits, hname, String.toList_ofList,
      List.length_append, List.length_cons] at hlength
    omega

/-! ### What the arity counts -/

/-- The arity is the number behind the grave accent, unless it is too large. -/
theorem arity_of_number {digits : List Char} (hname : s.name.toList = before ++ '\x60' :: after)
    (hafter : after = digits ∨ after = '+' :: digits) (h : IsNumeral digits) :
    s.arity = if Nat.ofDigitChars 10 digits 0 < UInt64.size
      then Nat.ofDigitChars 10 digits 0 else 0 := by
  have hparts := parts?_eq_some_iff.mpr ⟨hname, accent_not_mem_number hafter h⟩
  have hnumber := decimal?_eq_some_iff.mpr ⟨digits, hafter, h, rfl⟩
  simp only [arity, hparts, Option.bind_some, hnumber]

/-- An arity that counts is the number behind a grave accent. -/
theorem exists_number_of_arity_ne_zero (h : s.arity ≠ 0) :
    ∃ before after digits, s.name.toList = before ++ '\x60' :: after ∧
      (after = digits ∨ after = '+' :: digits) ∧ IsNumeral digits ∧
      s.arity = Nat.ofDigitChars 10 digits 0 ∧ Nat.ofDigitChars 10 digits 0 < UInt64.size := by
  unfold arity at h ⊢
  split at h
  · rename_i n hn
    obtain ⟨⟨before, after⟩, hparts, hnumber⟩ := Option.bind_eq_some_iff.mp hn
    obtain ⟨digits, hafter, hnumeral, rfl⟩ := decimal?_eq_some_iff.mp hnumber
    split at h
    · rename_i hlt
      exact ⟨before, after, digits, (parts?_eq_some_iff.mp hparts).1, hafter, hnumeral,
        by simp only [if_pos hlt], hlt⟩
    · exact absurd rfl h
  · exact absurd rfl h

/-! ### Where the readings agree -/

/-- **A suffix is read** exactly if the name ends in one, and its number is not too large. -/
theorem suffixed_iff : s.Suffixed ↔ s.EndsInNumber := by
  constructor
  · rintro ⟨digits, hnumeral, hname, hcount⟩
    refine ⟨_, digits, hname, hnumeral, Nat.lt_of_not_le fun hle => ?_⟩
    have harity := arity_of_number hname (.inl rfl) hnumeral
    rw [if_neg (Nat.not_lt.mpr hle), hcount] at harity
    rw [harity] at hle
    exact absurd hle (by decide)
  · rintro ⟨before, digits, hname, hnumeral, hlt⟩
    have harity := arity_of_number hname (.inl rfl) hnumeral
    rw [if_pos hlt] at harity
    refine ⟨digits, hnumeral, ?_, harity⟩
    rw [simpleName_of_digits hname hnumeral.2, String.toList_ofList, hname]

/-- The text leaves the suffix away that is read. -/
theorem Suffixed.simpleName_ne (h : s.Suffixed) : s.simpleName ≠ s.name := by
  obtain ⟨digits, hnumeral, hname, -⟩ := h
  exact simpleName_ne_iff.mpr ⟨_, digits, hname, hnumeral.2⟩

/-- **The whole name is the text, and yet takes arguments**, exactly if its number has a sign. -/
theorem keeps_counted_iff : s.simpleName = s.name ∧ s.arity ≠ 0 ↔ s.EndsInSigned := by
  constructor
  · rintro ⟨htext, harity⟩
    obtain ⟨before, after, digits, hname, rfl | rfl, hnumeral, heq, hlt⟩ :=
      exists_number_of_arity_ne_zero harity
    · exact absurd htext (simpleName_ne_iff.mpr ⟨before, _, hname, hnumeral.2⟩)
    · exact ⟨before, digits, hname, hnumeral, Nat.pos_of_ne_zero (heq ▸ harity), hlt⟩
  · rintro ⟨before, digits, hname, hnumeral, hpos, hlt⟩
    have harity := arity_of_number hname (.inr rfl) hnumeral
    rw [if_pos hlt] at harity
    refine ⟨?_, by omega⟩
    refine Decidable.not_not.mp fun htext => ?_
    obtain ⟨before', digits', hname', hall⟩ := simpleName_ne_iff.mp htext
    obtain rfl := after_unique hname (accent_not_mem_number (.inr rfl) hnumeral) hname'
      (accent_not_mem hall)
    exact absurd (hall '+' List.mem_cons_self) (by decide)

/-- **The text leaves something away that is not counted** exactly if there is no number, or one
that is too large. -/
theorem drops_uncounted_iff :
    s.simpleName ≠ s.name ∧ ¬ s.Suffixed ↔ s.EndsInAccent ∨ s.EndsInHuge := by
  rw [suffixed_iff]
  constructor
  · rintro ⟨htext, hnumber⟩
    obtain ⟨before, digits, hname, hdigits⟩ := simpleName_ne_iff.mp htext
    by_cases hnil : digits = []
    · exact .inl ⟨before, hnil ▸ hname⟩
    · have hnumeral : IsNumeral digits := ⟨hnil, hdigits⟩
      have hle : UInt64.size ≤ Nat.ofDigitChars 10 digits 0 :=
        Nat.not_lt.mp fun hlt => hnumber ⟨before, digits, hname, hnumeral, hlt⟩
      exact .inr ⟨before, digits, hname, hnumeral, hle⟩
  · rintro (⟨before, hname⟩ | ⟨before, digits, hname, hnumeral, hle⟩)
    · refine ⟨simpleName_ne_iff.mpr ⟨before, [], hname, by simp⟩, ?_⟩
      rintro ⟨before', digits, hname', hnumeral, -⟩
      exact hnumeral.1 (after_unique hname' (accent_not_mem hnumeral.2) hname List.not_mem_nil)
    · refine ⟨simpleName_ne_iff.mpr ⟨before, digits, hname, hnumeral.2⟩, ?_⟩
      rintro ⟨before', digits', hname', hnumeral', hlt⟩
      obtain rfl := after_unique hname' (accent_not_mem hnumeral'.2) hname
        (accent_not_mem hnumeral.2)
      omega

/-- **Text and arity agree on the suffix** of every name but those of three kinds, and on no name of
these: either no suffix is read at all, or the one that the name ends in is, and the text leaves
away what the arity counts. A number with a sign is counted, but not left away; a grave accent
without a number, and a number that is too large, are left away, but not counted. -/
theorem suffix_agreed_iff (s : NameSegment) :
    (Xor s.Unsuffixed s.Suffixed ↔ ¬ (s.EndsInAccent ∨ s.EndsInSigned ∨ s.EndsInHuge)) ∧
    (s.Suffixed ↔ s.EndsInNumber) ∧
    (s.simpleName = s.name ∧ s.arity ≠ 0 ↔ s.EndsInSigned) ∧
    (s.simpleName ≠ s.name ∧ ¬ s.Suffixed ↔ s.EndsInAccent ∨ s.EndsInHuge) := by
  refine ⟨?_, suffixed_iff, keeps_counted_iff, drops_uncounted_iff⟩
  have hexclusive : s.Suffixed → s.simpleName ≠ s.name := Suffixed.simpleName_ne
  have hkeeps := keeps_counted_iff (s := s)
  have hdrops := drops_uncounted_iff (s := s)
  rw [Xor, Unsuffixed]
  tauto

/-- **A sign makes a name keep its suffix** and take an argument all the same. -/
theorem suffix_agreed_iff_signed :
    ¬ Xor (⟨"", "Outer`+1"⟩ : NameSegment).Unsuffixed
      (⟨"", "Outer`+1"⟩ : NameSegment).Suffixed := by
  rintro (⟨⟨-, harity⟩, -⟩ | ⟨hsuffixed, -⟩)
  · exact absurd harity (by decide +kernel)
  · exact hsuffixed.simpleName_ne (by decide +kernel)

end NameSegment

end AliasStubs
