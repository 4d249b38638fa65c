import AliasStubs.Stubs.Spelling
import Mathlib

/-!
# The arguments of generic types

The arguments of a generic type go to the names of its chain, the outermost first. A name takes as
many as its arity says, as far as there are any left, and the last one takes all the rest. The arity
is only what the name says: it may be missing, too large or too small, and the arities of a chain
may sum up to anything. Whatever they are, the arguments are handed out as they come, and none is
lost.

## Main definitions

* `Dealt` : arguments are dealt to the names of a chain.
* `NameSegment.withArguments` : the text of a name with the arguments it takes.

## Main results

* `dealt_iff` : **there is exactly one way to deal arguments**.
* `map_length_distribute` : arities that sum up are met.
* `TypeDescriptor.spelling_generic_dealt` : a generic type is spelled name by name, each with what
  is dealt to it.
-/

namespace AliasStubs

/-! ### Dealing arguments -/

section Dealt

variable {α β : Type}

/-- The arguments are **dealt** to the names of a chain, in one group for each name. -/
structure Dealt (segments : List NameSegment) (args : List α) (groups : List (List α)) : Prop where
  length : groups.length = segments.length
  /-- The groups are all arguments, in order. -/
  flatten : groups.flatten = args
  /-- A name before the last one takes as many as its arity says, or all that are left behind the
  groups before its own if these are fewer. -/
  share (i : Nat) (s : NameSegment) (own : List α) (hnext : i + 1 < segments.length)
    (hs : segments[i]? = some s) (hown : groups[i]? = some own) :
    own.length = min s.arity (args.length - (groups.take i).flatten.length)

/-- A single name takes everything. -/
theorem dealt_singleton_iff {s : NameSegment} {args : List α} {groups : List (List α)} :
    Dealt [s] args groups ↔ groups = [args] := by
  constructor
  · intro h
    obtain ⟨own, rfl⟩ := List.length_eq_one_iff.mp h.length
    rw [← h.flatten, List.flatten_singleton]
  · rintro rfl
    refine ⟨rfl, List.flatten_singleton, fun i _ _ hnext => ?_⟩
    rw [List.length_singleton] at hnext
    omega

/-- The first of several names takes its share, and the others are dealt the rest. -/
theorem dealt_cons_iff {s : NameSegment} {rest : List NameSegment} {args own : List α}
    {groups : List (List α)} (hrest : rest ≠ []) :
    Dealt (s :: rest) args (own :: groups) ↔
      own = args.take s.arity ∧ Dealt rest (args.drop s.arity) groups := by
  have hpos : 0 < rest.length := List.length_pos_iff.mpr hrest
  constructor
  · intro h
    have hflatten : own ++ groups.flatten = args := h.flatten
    have hlength : own.length = min s.arity args.length :=
      h.share 0 s own (Nat.succ_lt_succ hpos) rfl rfl
    have hown : own = args.take s.arity :=
      calc
        own = args.take own.length := by rw [← hflatten, List.take_left]
        _ = args.take s.arity := by rw [hlength, ← List.take_take, List.take_length]
    have hothers : groups.flatten = args.drop s.arity := by
      have htogether : own ++ groups.flatten = own ++ args.drop s.arity := by
        rw [hflatten, hown, List.take_append_drop]
      exact List.append_cancel_left htogether
    refine ⟨hown, Nat.succ.inj h.length, hothers, fun i t other hnext ht hother => ?_⟩
    have hshare := h.share (i + 1) t other (Nat.succ_lt_succ hnext) ht hother
    rw [List.take_succ_cons, List.flatten_cons, List.length_append] at hshare
    rw [List.length_drop]
    omega
  · rintro ⟨rfl, h⟩
    refine ⟨congrArg Nat.succ h.length, ?_, fun i t other hnext ht hother => ?_⟩
    · rw [List.flatten_cons, h.flatten, List.take_append_drop]
    · cases i with
      | zero =>
          cases ht
          cases hother
          rw [List.length_take]
          rfl
      | succ i =>
          have hshare := h.share i t other (Nat.lt_of_succ_lt_succ hnext) ht hother
          rw [List.length_drop] at hshare
          rw [List.take_succ_cons, List.flatten_cons, List.length_append, List.length_take]
          omega

/-- **There is exactly one way to deal arguments.** -/
theorem dealt_iff {segments : List NameSegment} {args : List α} {groups : List (List α)}
    (h : segments ≠ []) :
    Dealt segments args groups ↔ groups = (distribute segments args).map (·.2) := by
  fun_induction distribute segments args generalizing groups with
  | case1 => contradiction
  | case2 args s => exact dealt_singleton_iff
  | case3 s rest args hrest ih =>
      constructor
      · intro hdealt
        obtain ⟨own, others, rfl⟩ := List.exists_cons_of_length_eq_add_one hdealt.length
        obtain ⟨rfl, hothers⟩ := (dealt_cons_iff hrest).mp hdealt
        rw [List.map_cons, ← (ih hrest).mp hothers]
      · rintro rfl
        exact (dealt_cons_iff hrest).mpr ⟨rfl, (ih hrest).mpr rfl⟩

/-- Every name of a chain takes its arguments. -/
theorem map_fst_distribute (segments : List NameSegment) (args : List α) :
    (distribute segments args).map (·.1) = segments := by
  fun_induction distribute segments args with
  | case1 => rfl
  | case2 => rfl
  | case3 s rest args hrest ih => rw [List.map_cons, ih]

/-- What is said of a name or one of the arguments it takes is said of a name or an argument, since
every argument is taken. -/
theorem exists_mem_distribute_iff {p : NameSegment → Prop} {q : α → Prop}
    {segments : List NameSegment} (args : List α) (h : segments ≠ []) :
    (∃ own ∈ distribute segments args, p own.1 ∨ ∃ arg ∈ own.2, q arg) ↔
      (∃ s ∈ segments, p s) ∨ ∃ arg ∈ args, q arg := by
  have hnames : (∃ s ∈ segments, p s) ↔ ∃ own ∈ distribute segments args, p own.1 := by
    conv_lhs => rw [← map_fst_distribute segments args]
    simp
  have hargs : (∃ arg ∈ args, q arg) ↔
      ∃ own ∈ distribute segments args, ∃ arg ∈ own.2, q arg := by
    conv_lhs => rw [← flatten_distribute segments args h]
    simp only [List.mem_flatten, List.mem_map]
    exact ⟨fun ⟨arg, ⟨_, ⟨own, hown, rfl⟩, harg⟩, hq⟩ => ⟨own, hown, arg, harg, hq⟩,
      fun ⟨own, hown, arg, harg, hq⟩ => ⟨arg, ⟨_, ⟨own, hown, rfl⟩, harg⟩, hq⟩⟩
  rw [hnames, hargs]
  simp only [and_or_left, exists_or]

/-- It does not matter what the arguments are. -/
theorem distribute_map (f : α → β) (segments : List NameSegment) (args : List α) :
    distribute segments (args.map f) =
      (distribute segments args).map fun e => (e.1, e.2.map f) := by
  fun_induction distribute segments args with
  | case1 => rfl
  | case2 => rfl
  | case3 s rest args hrest ih =>
      obtain ⟨t, ts, rfl⟩ := List.exists_cons_of_ne_nil hrest
      rw [distribute, List.map_cons, ← List.map_take, ← List.map_drop, ih]
      exact hrest

/-- **Arities that sum up are met**: every name takes exactly as many as its arity says. -/
theorem map_length_distribute {segments : List NameSegment} {args : List α}
    (h : (segments.map (·.arity)).sum = args.length) :
    (distribute segments args).map (·.2.length) = segments.map (·.arity) := by
  fun_induction distribute segments args with
  | case1 => rfl
  | case2 args s => exact congrArg (· :: []) h.symm
  | case3 s rest args hrest ih =>
      rw [List.map_cons, List.sum_cons] at h
      rw [List.map_cons, List.map_cons, ih (by rw [List.length_drop]; omega), List.length_take,
        Nat.min_eq_left (by omega)]

end Dealt

/-! ### Spelling generic types -/

/-- The text of a name with the arguments it takes. -/
def NameSegment.withArguments (s : NameSegment) : (own : List TypeDescriptor) → String
  | [] => s.simpleName
  | own => s.simpleName ++ "<" ++ ", ".intercalate (own.map (·.spelling)) ++ ">"

theorem segmentSpelling_map (s : NameSegment) (own : List TypeDescriptor) :
    segmentSpelling s (own.map (·.spelling)) = s.withArguments own := by
  cases own with
  | nil => rfl
  | cons => rw [segmentSpelling, if_neg (by simp), NameSegment.withArguments]; simp

/-- **The arguments of a generic type are distributed without loss.** They are dealt to the names of
its chain in exactly one way, and the last name is left with all that the others do not take. The
text of the type is the names from the outermost to the innermost, each with the arguments dealt to
it. If the arities sum up to the number of arguments, every name takes exactly as many as its arity
says. -/
theorem TypeDescriptor.spelling_generic_dealt (n : TypeName) (args : List TypeDescriptor) :
    ∃ groups, Dealt n.segments args groups ∧
      (∀ groups', Dealt n.segments args groups' → groups' = groups) ∧
      groups.getLast? = some (args.drop groups.dropLast.flatten.length) ∧
      (generic n args).spelling =
        ".".intercalate (List.zipWith NameSegment.withArguments n.segments groups) ∧
      ((n.segments.map (·.arity)).sum = args.length →
        groups.map List.length = n.segments.map (·.arity)) := by
  have hsegments : n.segments ≠ [] := List.cons_ne_nil _ _
  have hdealt : Dealt n.segments args ((distribute n.segments args).map (·.2)) :=
    (dealt_iff hsegments).mpr rfl
  refine ⟨_, hdealt, fun _ => (dealt_iff hsegments).mp, ?_, ?_, fun hsum => ?_⟩
  · have hne : (distribute n.segments args).map (·.2) ≠ [] := by
      rw [← List.length_pos_iff, hdealt.length]
      exact List.length_pos_iff.mpr hsegments
    have hflatten := hdealt.flatten
    generalize (distribute n.segments args).map (·.2) = groups at hne hflatten
    rw [← List.dropLast_append_getLast hne, List.flatten_append, List.flatten_singleton] at hflatten
    rw [List.getLast?_eq_some_getLast hne, ← hflatten, List.drop_left]
  · have hzip : List.zipWith NameSegment.withArguments ((distribute n.segments args).map (·.1))
        ((distribute n.segments args).map (·.2)) =
          (distribute n.segments args).map fun e => e.1.withArguments e.2 := by
      rw [List.zipWith_map, List.zipWith_self]
    rw [map_fst_distribute] at hzip
    rw [spelling, spellings_eq, List.reverse_nil, List.nil_append, TypeName.spelling, distribute_map,
      List.map_map, hzip]
    simp only [Function.comp_def, segmentSpelling_map]
  · rw [List.map_map]
    exact map_length_distribute hsum

/-- The last name takes what the arities leave over, and a name may be left with nothing. -/
example :
    (TypeDescriptor.generic ⟨⟨"", "Outer`1"⟩, [⟨"", "Inner"⟩]⟩
        [.primitive .int32, .primitive .string, .primitive .boolean]).spelling =
      "Outer<int>.Inner<string, bool>" ∧
    (TypeDescriptor.generic ⟨⟨"", "Outer`3"⟩, [⟨"", "Inner`1"⟩]⟩
        [.primitive .int32, .primitive .string]).spelling = "Outer<int, string>.Inner" := by
  decide +kernel

end AliasStubs
