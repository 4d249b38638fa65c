import AliasStubs.Proofs.Signature.Grammar

/-!
# Signatures are read by their grammar

The reader of signatures accepts exactly the written forms of the grammar that nest no deeper than
the budget allows, and consumes exactly the written form, whatever follows it.

Most decoders of the reader recognise a grammar outright. The two that skip what stands before a
type stop only where no further mark follows, so their statements mention the first byte of what is
left. The heart is `type_recognises`, an induction on the levels: a type within `n + 1` levels is
a construction over types within `n` levels, and the grammar of the construction splits into the
grammar of the type and a condition on its parts (`WrittenConstruction.and_iff`).

## Main results

* `param_recognises`, `method_recognises` : parameters and methods, over any recognised grammar of
  types.
* `type_recognises` : types within a number of levels.
* `WrittenType.unique` : the grammar is unambiguous.
* `read_start_iff` : **a fresh session reads exactly the grammar**.
-/

namespace AliasStubs.Signature

open Reading Decoder Compressed

variable {τ : Type}

/-! ### What may stand before a type -/

/-- The modifiers that are read stand behind the earlier ones, and no further one follows. -/
theorem modifiersOnto_sound {done ts : List Token} {bytes rest : List UInt8}
    (h : modifiersOnto done bytes = .ok ts rest) :
    ∃ us p, ts = done.reverse ++ us ∧ bytes = p ++ rest ∧ WrittenModifiers us p ∧
      ∀ b ∈ rest.head?, isModifier b = false := by
  fun_induction modifiersOnto done bytes with
  | case1 done =>
      cases h
      exact ⟨[], [], by simp, rfl, .nil, by simp⟩
  | case2 done b tail hb t mid ht ih =>
      obtain ⟨p, rfl, hp⟩ := token_recognises.sound ht
      obtain ⟨us, q, rfl, rfl, hq, hrest⟩ := ih h
      exact ⟨t :: us, b :: (p ++ q), by simp, by simp, .cons hb hp hq, hrest⟩
  | case3 => cases h
  | case4 done b tail hb =>
      cases h
      exact ⟨[], [], by simp, rfl, .nil, by simpa using hb⟩

/-- A modifier is read and put behind the earlier ones. -/
theorem modifiersOnto_cons {b : UInt8} (hb : isModifier b = true) {t : Token}
    {tail mid : List UInt8} (ht : token tail = .ok t mid) (done : List Token) :
    modifiersOnto done (b :: tail) = modifiersOnto (t :: done) mid := by
  rw [modifiersOnto, if_pos hb]
  split
  · rename_i t' mid' ht'
    obtain ⟨rfl, rfl⟩ := EStateM.Result.ok.inj (ht.symm.trans ht')
    rfl
  · rename_i e mid' ht'
    cases ht.symm.trans ht'

/-- Modifiers are read up to the first byte that starts no modifier. -/
theorem modifiersOnto_append {us : List Token} {p : List UInt8} (h : WrittenModifiers us p)
    {rest : List UInt8} (hrest : ∀ b ∈ rest.head?, isModifier b = false) (done : List Token) :
    modifiersOnto done (p ++ rest) = .ok (done.reverse ++ us) rest := by
  induction h generalizing done with
  | nil =>
      cases rest with
      | nil => simp [modifiersOnto]
      | cons b tail =>
          have hb : isModifier b = false := hrest b rfl
          simp [modifiersOnto, hb]
  | @cons b t ts p q hb token _ ih =>
      rw [List.cons_append, List.append_assoc,
        modifiersOnto_cons hb (token_recognises.complete _ token), ih, List.reverse_cons,
        List.append_assoc, List.singleton_append]

/-- The marks that are skipped end where no further one follows. -/
theorem skipMarks_sound {bytes rest : List UInt8} {u : Unit} (h : skipMarks bytes = .ok u rest) :
    ∃ m, bytes = m ++ rest ∧ Marks m := by
  fun_induction skipMarks bytes with
  | case1 =>
      cases h
      exact ⟨[], rfl, .nil⟩
  | case2 tail ih =>
      obtain ⟨m, rfl, hm⟩ := ih h
      exact ⟨pinned :: m, rfl, .pinned hm⟩
  | case3 b tail _ hb t mid ht ih =>
      obtain ⟨p, rfl, hp⟩ := token_recognises.sound ht
      obtain ⟨m, rfl, hm⟩ := ih h
      exact ⟨b :: (p ++ m), by simp, .modifier hb hp hm⟩
  | case4 => cases h
  | case5 b tail =>
      cases h
      exact ⟨[], rfl, .nil⟩

/-- A modifier is skipped with its token. -/
theorem skipMarks_cons {b : UInt8} (hb : isModifier b = true) {t : Token}
    {tail mid : List UInt8} (ht : token tail = .ok t mid) :
    skipMarks (b :: tail) = skipMarks mid := by
  have hpin : b ≠ pinned := fun h => absurd (h ▸ hb) (by decide)
  rw [skipMarks, if_neg hpin, if_pos hb]
  split
  · rename_i t' mid' ht'
    obtain ⟨rfl, rfl⟩ := EStateM.Result.ok.inj (ht.symm.trans ht')
    rfl
  · rename_i e mid' ht'
    cases ht.symm.trans ht'

/-- Marks are skipped up to the first byte that is part of none. -/
theorem skipMarks_append {m : List UInt8} (h : Marks m) {b : UInt8} (hb : isMark b = false)
    (rest : List UInt8) : skipMarks (m ++ b :: rest) = .ok () (b :: rest) := by
  induction h with
  | nil =>
      obtain ⟨hpin, hmod⟩ : b ≠ pinned ∧ isModifier b = false := by simpa [isMark] using hb
      simp [skipMarks, hpin, hmod]
  | pinned _ ih => rw [List.cons_append, skipMarks, if_pos rfl, ih]
  | modifier hc token _ ih =>
      rw [List.cons_append, List.append_assoc,
        skipMarks_cons hc (token_recognises.complete _ token), ih]

/-- A mark that stands next is consumed. -/
theorem mark_self (b : UInt8) (rest : List UInt8) : mark b (b :: rest) = .ok true rest := by
  rw [mark, if_pos rfl]

/-- Any other byte stays in place. -/
theorem mark_of_ne {b c : UInt8} (h : c ≠ b) (rest : List UInt8) :
    mark b (c :: rest) = .ok false (c :: rest) := by
  rw [mark, if_neg h]

/-- Looking for a mark finds it, or finds another byte and leaves it. -/
theorem of_mark_eq_ok {b : UInt8} {found : Bool} {bytes rest : List UInt8}
    (h : mark b bytes = .ok found rest) :
    found = true ∧ bytes = b :: rest ∨ found = false ∧ bytes = rest ∧ ∀ c ∈ rest.head?, c ≠ b := by
  cases bytes with
  | nil => cases h
  | cons c tail =>
      by_cases hc : c = b
      · subst hc
        rw [mark_self] at h
        cases h
        exact .inl ⟨rfl, rfl⟩
      · rw [mark_of_ne hc] at h
        cases h
        exact .inr ⟨rfl, rfl, by simpa using hc⟩

/-! ### Parameters -/

variable {E : τ → List UInt8 → Prop} {d : Decoder τ}

/-- The modifiers of a parameter are read. -/
theorem modifiers_append {ms : List Token} {p : List UInt8} (h : WrittenModifiers ms p)
    {rest : List UInt8} (hrest : ∀ b ∈ rest.head?, isModifier b = false) :
    modifiers (p ++ rest) = .ok ms rest :=
  modifiersOnto_append h hrest []

/-- A first byte stays the first when more bytes follow. -/
theorem mem_head?_append {b : UInt8} {q : List UInt8} (h : b ∈ q.head?) (rest : List UInt8) :
    b ∈ (q ++ rest).head? := by
  cases q with
  | nil => cases h
  | cons => exact h

/-- **Parameters** are recognised over every recognised grammar of types. -/
theorem param_recognises (hd : Recognises d E) (hE : Headed E) :
    Recognises (param d) (WrittenParam E) where
  sound {bytes rest x} h := by
    obtain ⟨ms, mid, hm, h⟩ := bind_eq_ok_iff.mp h
    obtain ⟨found, mid', hmark, h⟩ := bind_eq_ok_iff.mp h
    obtain ⟨t, r, ht, h⟩ := bind_eq_ok_iff.mp h
    obtain ⟨rfl, rfl⟩ := pure_eq_ok_iff.mp h
    obtain ⟨us, p, rfl, rfl, hp, hmod⟩ := modifiersOnto_sound hm
    obtain ⟨q, rfl, hq⟩ := hd.sound ht
    rcases of_mark_eq_ok hmark with ⟨rfl, rfl⟩ | ⟨rfl, rfl, hne⟩
    · exact ⟨p ++ byReference :: q, by simp, .byRef hp hq⟩
    · refine ⟨p ++ q, by simp, .byValue hp hq fun b hb => ?_⟩
      have hmem := mem_head?_append hb r
      exact ⟨hmod b hmem, hne b hmem⟩
  complete rest h := by
    cases h with
    | @byRef ms t p q hm ht =>
        have hmod : ∀ b ∈ (byReference :: (q ++ rest)).head?, isModifier b = false := by
          rintro b ⟨⟩
          decide
        rw [List.append_assoc, List.cons_append, param, bind_of_eq_ok (modifiers_append hm hmod),
          bind_of_eq_ok (mark_self _ _), bind_of_eq_ok (hd.complete rest ht)]
        rfl
    | @byValue ms t p q hm ht hq =>
        obtain ⟨b, q, rfl, -⟩ := hE ht
        obtain ⟨hb, hne⟩ := hq b rfl
        have hmod : ∀ c ∈ (b :: q ++ rest).head?, isModifier c = false := by
          rintro c ⟨⟩
          exact hb
        rw [List.append_assoc, param, bind_of_eq_ok (modifiers_append hm hmod), List.cons_append,
          bind_of_eq_ok (mark_of_ne hne _), ← List.cons_append, bind_of_eq_ok (hd.complete rest ht)]
        rfl

/-- The parameters that are read stand behind the earlier ones, the further arguments apart. -/
theorem paramsOnto_sound (hd : Recognises (param d) (WrittenParam E)) {count : Nat} {past : Bool}
    {fixed further fs vs : List (ParamSig τ)} {bytes rest : List UInt8}
    (h : paramsOnto d count past fixed further bytes = .ok (fs, vs) rest) :
    ∃ f v p q, fs = fixed.reverse ++ f ∧ vs = further.reverse ++ v ∧ f.length + v.length = count ∧
      (past = true → f = []) ∧ bytes = p ++ (q ++ rest) ∧ Repeated (WrittenParam E) f p ∧
      WrittenFurther E past v q := by
  induction count generalizing past fixed further bytes with
  | zero =>
      obtain ⟨heq, rfl⟩ := pure_eq_ok_iff.mp h
      obtain ⟨rfl, rfl⟩ := Prod.mk.inj heq
      exact ⟨[], [], [], [], by simp, by simp, rfl, fun _ => rfl, rfl, .nil, .nil⟩
  | succ count ih =>
      obtain ⟨marked, mid, hmark, htail⟩ := bind_eq_ok_iff.mp h
      obtain ⟨x, mid', hx, hrest⟩ := bind_eq_ok_iff.mp htail
      obtain ⟨px, rfl, hpx⟩ := hd.sound hx
      by_cases hpast : (past || marked) = true
      · rw [if_pos hpast] at hrest
        obtain ⟨f, v, p, q, rfl, rfl, hlen, hf, rfl, hp, hq⟩ := ih hrest
        -- Behind the sentinel no fixed parameter follows.
        obtain rfl : f = [] := hf rfl
        cases hp
        rcases of_mark_eq_ok hmark with ⟨rfl, rfl⟩ | ⟨rfl, rfl, -⟩
        · exact ⟨[], x :: v, [], sentinel :: (px ++ q), by simp, by simp, by simpa using hlen,
            fun _ => rfl, by simp, .nil, .marked hpx hq⟩
        · obtain rfl : past = true := by simpa using hpast
          exact ⟨[], x :: v, [], px ++ q, by simp, by simp, by simpa using hlen, fun _ => rfl,
            by simp, .nil, .plain hpx hq⟩
      · rw [if_neg hpast] at hrest
        obtain ⟨rfl, rfl⟩ : past = false ∧ marked = false := by simpa using hpast
        obtain ⟨f, v, p, q, rfl, rfl, hlen, -, rfl, hp, hq⟩ := ih hrest
        rcases of_mark_eq_ok hmark with ⟨hfound, -⟩ | ⟨-, rfl, -⟩
        · cases hfound
        · refine ⟨x :: f, v, px ++ p, q, by simp, rfl, ?_, by simp, by simp, .cons hpx hp, hq⟩
          rw [List.length_cons]
          omega

/-- The further arguments are read, with their sentinels. -/
theorem paramsOnto_further (hd : Recognises (param d) (WrittenParam E))
    (hE : Headed (WrittenParam E)) {past : Bool} {v : List (ParamSig τ)} {q : List UInt8}
    (h : WrittenFurther E past v q)
    (fixed further : List (ParamSig τ)) (rest : List UInt8) :
    paramsOnto d v.length past fixed further (q ++ rest) =
      .ok (fixed.reverse, further.reverse ++ v) rest := by
  induction h generalizing further with
  | nil => exact pure_eq_ok_iff.mpr ⟨by simp, rfl⟩
  | @marked past x vs p q head _ ih =>
      rw [List.cons_append, List.append_assoc, List.length_cons, paramsOnto,
        bind_of_eq_ok (mark_self _ _), bind_of_eq_ok (hd.complete _ head),
        if_pos (Bool.or_true past), ih, List.reverse_cons, List.append_assoc,
        List.singleton_append]
  | @plain x vs p q head _ ih =>
      obtain ⟨b, p, rfl, hne⟩ := hE head
      rw [List.append_assoc, List.length_cons, paramsOnto, List.cons_append,
        bind_of_eq_ok (mark_of_ne hne _), ← List.cons_append, bind_of_eq_ok (hd.complete _ head),
        if_pos (Bool.true_or false), ih, List.reverse_cons, List.append_assoc,
        List.singleton_append]

/-- The fixed parameters are read first. -/
theorem paramsOnto_fixed (hd : Recognises (param d) (WrittenParam E)) (hE : Headed (WrittenParam E))
    {f : List (ParamSig τ)} {p : List UInt8} (h : Repeated (WrittenParam E) f p) (count : Nat)
    (fixed further : List (ParamSig τ)) (bytes : List UInt8) :
    paramsOnto d (f.length + count) false fixed further (p ++ bytes) =
      paramsOnto d count false (f.reverse ++ fixed) further bytes := by
  induction h generalizing fixed with
  | nil => rw [List.length_nil, Nat.zero_add, List.nil_append, List.reverse_nil, List.nil_append]
  | @cons x f p q head _ ih =>
      obtain ⟨b, p, rfl, hne⟩ := hE head
      rw [List.append_assoc, List.length_cons, Nat.add_right_comm, paramsOnto, List.cons_append,
        bind_of_eq_ok (mark_of_ne hne _), ← List.cons_append, bind_of_eq_ok (hd.complete _ head),
        if_neg (by decide), ih, List.reverse_cons, List.append_assoc, List.singleton_append]

/-! ### Methods -/

/-- The number of generic parameters is read if the calling convention announces it. -/
theorem genericCount_recognises (convention : UInt8) :
    Recognises (genericCount convention) (WrittenGenericCount convention) where
  sound h := by
    unfold genericCount at h
    split at h
    · rename_i hc
      obtain ⟨p, rfl, hp⟩ := uint_recognises.sound h
      exact ⟨p, rfl, .present hc hp⟩
    · rename_i hc
      obtain ⟨rfl, rfl⟩ := pure_eq_ok_iff.mp h
      exact ⟨[], rfl, .absent (by simpa using hc)⟩
  complete rest h := by
    cases h with
    | absent hc =>
        rw [genericCount, if_neg (by simpa using hc)]
        rfl
    | present hc hp => rw [genericCount, if_pos hc, uint_recognises.complete rest hp]

/-- **Methods** are recognised over every recognised grammar of types. -/
theorem method_recognises (hd : Recognises d E) (hE : Headed E) :
    Recognises (method d) (WrittenMethod E) where
  sound {bytes rest m} h := by
    have hparam := param_recognises hd hE
    obtain ⟨convention, mid₁, h₁, h⟩ := bind_eq_ok_iff.mp h
    obtain ⟨n, mid₂, h₂, h⟩ := bind_eq_ok_iff.mp h
    obtain ⟨count, mid₃, h₃, h⟩ := bind_eq_ok_iff.mp h
    obtain ⟨ret, mid₄, h₄, h⟩ := bind_eq_ok_iff.mp h
    obtain ⟨⟨fs, vs⟩, mid₅, h₅, h⟩ := bind_eq_ok_iff.mp h
    obtain ⟨rfl, rfl⟩ := pure_eq_ok_iff.mp h
    obtain rfl := next_eq_ok_iff.mp h₁
    obtain ⟨g, rfl, hg⟩ := (genericCount_recognises convention).sound h₂
    obtain ⟨k, rfl, hk⟩ := uint_recognises.sound h₃
    obtain ⟨r, rfl, hr⟩ := hparam.sound h₄
    obtain ⟨f, v, p, q, rfl, rfl, rfl, -, rfl, hp, hq⟩ := paramsOnto_sound hparam h₅
    exact ⟨convention :: (g ++ (k ++ (r ++ (p ++ q)))), by simp, .mk hg hk hr hp hq⟩
  complete rest h := by
    have hparam := param_recognises hd hE
    have hhead : Headed (WrittenParam E) := Headed.param hE
    cases h with
    | @mk convention n ret params varargs g k r f v hg hk hr hf hv =>
        have hc : next (convention :: (g ++ (k ++ (r ++ (f ++ (v ++ rest)))))) =
            .ok convention (g ++ (k ++ (r ++ (f ++ (v ++ rest))))) := rfl
        have hps : paramsOnto d (params.length + varargs.length) false [] [] (f ++ (v ++ rest)) =
            .ok (params, varargs) rest := by
          rw [paramsOnto_fixed hparam hhead hf, paramsOnto_further hparam hhead hv]
          simp
        simp only [List.cons_append, List.append_assoc]
        rw [method, bind_of_eq_ok hc, bind_of_eq_ok ((genericCount_recognises _).complete _ hg),
          bind_of_eq_ok (uint_recognises.complete _ hk), bind_of_eq_ok (hparam.complete _ hr),
          bind_of_eq_ok hps]
        rfl

/-! ### Types within a number of levels -/

/-- The written forms of the types that nest at most `n` levels deep. -/
def WrittenWithin (n : Nat) (t : TypeSig) (p : List UInt8) : Prop :=
  WrittenType t p ∧ t.depth ≤ n

theorem headed_writtenWithin (n : Nat) : Headed (WrittenWithin n) :=
  fun h => headed_writtenType h.1

/-- A custom modifier is a mark. -/
theorem WrittenModifiers.marks {ms : List Token} {p : List UInt8} (h : WrittenModifiers ms p) :
    Marks p := by
  induction h with
  | nil => exact .nil
  | cons hb token _ ih => exact .modifier hb token ih

/-- Two runs of marks are one. -/
theorem Marks.append {m m' : List UInt8} (h : Marks m) (h' : Marks m') : Marks (m ++ m') := by
  induction h with
  | nil => exact h'
  | pinned _ ih => exact .pinned ih
  | modifier hb token _ ih =>
      rw [List.cons_append, List.append_assoc]
      exact .modifier hb token ih

/-- Modifiers before a type are marks of the type. -/
theorem WrittenType.of_modifiers {t : TypeSig} {ms : List Token} {p q : List UInt8}
    (hp : WrittenModifiers ms p) (h : WrittenType t q) : WrittenType t (p ++ q) := by
  obtain ⟨hm, hc⟩ := h
  rw [← List.append_assoc]
  exact .mk (hp.marks.append hm) hc

/-- The modifiers that a run of marks starts with can be split off. -/
theorem Marks.exists_modifiers {m : List UInt8} (h : Marks m) :
    ∃ ms p q, m = p ++ q ∧ WrittenModifiers ms p ∧ Marks q ∧
      ∀ b ∈ q.head?, isModifier b = false := by
  induction h with
  | nil => exact ⟨[], [], [], rfl, .nil, .nil, by simp⟩
  | pinned rest _ => exact ⟨[], [], _, rfl, .nil, .pinned rest, by simp; decide⟩
  | modifier hb token _ ih =>
      obtain ⟨ms, p, q, rfl, hp, hq, hhead⟩ := ih
      exact ⟨_, _, q, by simp, .cons hb token hp, hq, hhead⟩

/-- Reading modifiers before a type leaves the rest of the type. -/
theorem WrittenType.exists_modifiers {t : TypeSig} {p : List UInt8} (h : WrittenType t p)
    (rest : List UInt8) :
    ∃ ms q, modifiers (p ++ rest) = .ok ms (q ++ rest) ∧ WrittenType t q := by
  obtain ⟨hm, hc⟩ := h
  obtain ⟨ms, p, q, rfl, hp, hq, hhead⟩ := hm.exists_modifiers
  obtain ⟨b, c, rfl, hb, -⟩ := hc.exists_cons
  refine ⟨ms, q ++ b :: c, ?_, .mk hq hc⟩
  rw [List.append_assoc, List.append_assoc, modifiers_append hp, List.append_assoc]
  -- What follows starts with a pinned mark, or with the type itself.
  cases q with
  | nil =>
      rintro _ ⟨⟩
      exact (Bool.or_eq_false_iff.mp hb).2
  | cons => exact hhead

/-- The definition of a generic type is its element code and its token, and takes a level. -/
theorem genericBase_recognises (n : Nat) :
    Recognises (genericBase n) fun kd p =>
      ∃ q, p = kd.1.code :: q ∧ WrittenWithin n (.nominal kd.1 kd.2) p where
  sound {bytes rest kd} h := by
    obtain ⟨b, mid, hpeek, h⟩ := bind_eq_ok_iff.mp h
    obtain ⟨rfl, hb⟩ := peek_eq_ok_iff.mp hpeek
    cases hk : NominalKind.ofCode? b with
    | none =>
        rw [hk] at h
        cases h
    | some k =>
        rw [hk] at h
        cases n with
        | zero => cases h
        | succ n =>
            obtain ⟨b', mid', hnext, h⟩ := bind_eq_ok_iff.mp h
            obtain ⟨d, mid'', ht, h⟩ := bind_eq_ok_iff.mp h
            obtain ⟨rfl, rfl⟩ := pure_eq_ok_iff.mp h
            obtain rfl := next_eq_ok_iff.mp hnext
            obtain rfl : b' = b := Option.some.inj hb
            obtain ⟨p, rfl, hp⟩ := token_recognises.sound ht
            obtain rfl := NominalKind.code_of_ofCode? hk
            exact ⟨k.code :: p, rfl, p, rfl, writtenType_nominal_iff.mpr hp, Nat.le_add_left 1 n⟩
  complete {p kd} rest := by
    obtain ⟨k, d⟩ := kd
    rintro ⟨q, rfl, h, hn⟩
    obtain ⟨n, rfl⟩ := Nat.exists_eq_add_of_le' (show 1 ≤ n from hn)
    have hpeek : peek (k.code :: (q ++ rest)) = .ok k.code (k.code :: (q ++ rest)) := rfl
    have hnext : next (k.code :: (q ++ rest)) = .ok k.code (q ++ rest) := rfl
    have ht := token_recognises.complete rest (writtenType_nominal_iff.mp h)
    rw [List.cons_append, genericBase, bind_of_eq_ok hpeek, NominalKind.ofCode?_code]
    simp only
    rw [bind_of_eq_ok hnext, bind_of_eq_ok ht]
    rfl

/-- Modifiers before a type are part of its written form, whatever is made of the type. -/
theorem modified_recognises {n : Nat} {d : Decoder TypeSig} (hd : Recognises d (WrittenWithin n))
    (f : TypeSig → TypeSig) :
    Recognises (modifiers >>= fun _ => d >>= fun t => pure (f t)) fun u p =>
      ∃ t, f t = u ∧ WrittenWithin n t p where
  sound h := by
    obtain ⟨ms, mid, hm, htype⟩ := bind_eq_ok_iff.mp h
    obtain ⟨q, rfl, t, rfl, ht, hn⟩ := (hd.map f).sound htype
    obtain ⟨ms', p, -, rfl, hp, -⟩ := modifiersOnto_sound hm
    exact ⟨p ++ q, by simp, t, rfl, ht.of_modifiers hp, hn⟩
  complete rest := by
    rintro ⟨t, rfl, ht, hn⟩
    obtain ⟨ms, q, hm, hq⟩ := ht.exists_modifiers rest
    rw [bind_of_eq_ok hm]
    exact (hd.map f).complete rest ⟨t, rfl, hq, hn⟩

/-- Lists of numbers are skipped by their count. -/
theorem skipUints_recognises (count : Nat) :
    Recognises (skipTimes uint count) fun _ p => ∃ ns : List Nat, ns.length = count ∧
      Repeated Written ns p :=
  skipTimes_recognises uint_recognises count

section Constructions

variable {n : Nat} {d : Decoder TypeSig} {code : UInt8}

/-- What is read behind an element code is a construction over types of one level less. -/
theorem constructed_sound (hd : Recognises d (WrittenWithin n)) {bytes rest : List UInt8}
    {t : TypeSig} (h : constructed n d code bytes = .ok t rest) :
    ∃ p, bytes = p ++ rest ∧ WrittenConstruction (WrittenWithin n) t (code :: p) := by
  unfold constructed at h
  -- The cases follow the element codes of the reader, an unknown one last.
  split at h
  case h_1 =>
    obtain ⟨p, rfl, u, rfl, hu⟩ := (modified_recognises hd TypeSig.pointer).sound h
    exact ⟨p, rfl, .pointer hu⟩
  case h_2 =>
    obtain ⟨p, rfl, u, rfl, hu⟩ := (hd.map TypeSig.byRef).sound h
    exact ⟨p, rfl, .byRef hu⟩
  case h_3 =>
    obtain ⟨p, rfl, i, rfl, hi⟩ := (uint_recognises.map TypeSig.typeParam).sound h
    exact ⟨p, rfl, .typeParam hi⟩
  case h_4 =>
    obtain ⟨u, mid₁, h₁, h⟩ := bind_eq_ok_iff.mp h
    obtain ⟨rank, mid₂, h₂, h⟩ := bind_eq_ok_iff.mp h
    obtain ⟨sizes, mid₃, h₃, h⟩ := bind_eq_ok_iff.mp h
    obtain ⟨_, mid₄, h₄, h⟩ := bind_eq_ok_iff.mp h
    obtain ⟨bounds, mid₅, h₅, h⟩ := bind_eq_ok_iff.mp h
    obtain ⟨_, mid₆, h₆, h⟩ := bind_eq_ok_iff.mp h
    obtain ⟨rfl, rfl⟩ := pure_eq_ok_iff.mp h
    obtain ⟨p, rfl, hp⟩ := hd.sound h₁
    obtain ⟨r, rfl, hr⟩ := uint_recognises.sound h₂
    obtain ⟨m, rfl, hm⟩ := uint_recognises.sound h₃
    obtain ⟨s, rfl, ns, rfl, hs⟩ := (skipUints_recognises sizes).sound h₄
    obtain ⟨k, rfl, hk⟩ := uint_recognises.sound h₅
    obtain ⟨l, rfl, ls, rfl, hl⟩ := (skipUints_recognises bounds).sound h₆
    exact ⟨p ++ (r ++ (m ++ (s ++ (k ++ l)))), by simp, .array hp hr hm hs hk hl⟩
  case h_5 =>
    obtain ⟨⟨kind, definition⟩, mid₁, h₁, h⟩ := bind_eq_ok_iff.mp h
    obtain ⟨count, mid₂, h₂, h⟩ := bind_eq_ok_iff.mp h
    obtain ⟨as, mid₃, h₃, h⟩ := bind_eq_ok_iff.mp h
    obtain ⟨rfl, rfl⟩ := pure_eq_ok_iff.mp h
    obtain ⟨_, rfl, p, rfl, hp⟩ := (genericBase_recognises n).sound h₁
    obtain ⟨c, rfl, hc⟩ := uint_recognises.sound h₂
    obtain ⟨q, rfl, rfl, hq⟩ := (times_recognises hd count).sound h₃
    exact ⟨kind.code :: (p ++ (c ++ q)), by simp, .generic hp hc hq⟩
  case h_6 =>
    have hmethod := method_recognises hd (headed_writtenWithin n)
    obtain ⟨p, rfl, m, rfl, hm⟩ := (hmethod.map TypeSig.method).sound h
    exact ⟨p, rfl, .method hm⟩
  case h_7 =>
    obtain ⟨p, rfl, u, rfl, hu⟩ := (modified_recognises hd TypeSig.vector).sound h
    exact ⟨p, rfl, .vector hu⟩
  case h_8 =>
    obtain ⟨p, rfl, i, rfl, hi⟩ := (uint_recognises.map TypeSig.methodParam).sound h
    exact ⟨p, rfl, .methodParam hi⟩
  case h_9 => cases h

/-- A construction over types of one level less is read behind its element code. -/
theorem constructed_append (hd : Recognises d (WrittenWithin n))
    (hsimple : SimpleType.ofCode? code = none) (hnominal : NominalKind.ofCode? code = none)
    {p : List UInt8} {t : TypeSig} (h : WrittenConstruction (WrittenWithin n) t (code :: p))
    (rest : List UInt8) : constructed n d code (p ++ rest) = .ok t rest := by
  cases h with
  | simple t =>
      rw [SimpleType.ofCode?_code] at hsimple
      cases hsimple
  | nominal =>
      rw [NominalKind.ofCode?_code] at hnominal
      cases hnominal
  | pointer h => exact (modified_recognises hd TypeSig.pointer).complete rest ⟨_, rfl, h⟩
  | vector h => exact (modified_recognises hd TypeSig.vector).complete rest ⟨_, rfl, h⟩
  | byRef h => exact (hd.map TypeSig.byRef).complete rest ⟨_, rfl, h⟩
  | typeParam h => exact (uint_recognises.map TypeSig.typeParam).complete rest ⟨_, rfl, h⟩
  | methodParam h => exact (uint_recognises.map TypeSig.methodParam).complete rest ⟨_, rfl, h⟩
  | array h hr hm hs hl hb =>
      simp only [List.append_assoc]
      rw [constructed, bind_of_eq_ok (hd.complete _ h),
        bind_of_eq_ok (uint_recognises.complete _ hr),
        bind_of_eq_ok (uint_recognises.complete _ hm),
        bind_of_eq_ok ((skipUints_recognises _).complete (a := ()) _ ⟨_, rfl, hs⟩),
        bind_of_eq_ok (uint_recognises.complete _ hl),
        bind_of_eq_ok ((skipUints_recognises _).complete (a := ()) _ ⟨_, rfl, hb⟩)]
      rfl
  | @generic kind definition as p c q h hc hq =>
      have hbase : genericBase n (kind.code :: (p ++ (c ++ (q ++ rest)))) =
          .ok (kind, definition) (c ++ (q ++ rest)) :=
        (genericBase_recognises n).complete (a := (kind, definition)) _ ⟨p, rfl, h⟩
      have hargs := (times_recognises hd as.length).complete rest ⟨rfl, hq⟩
      simp only [List.cons_append, List.append_assoc]
      rw [constructed, bind_of_eq_ok hbase]
      simp only
      rw [bind_of_eq_ok (uint_recognises.complete _ hc), bind_of_eq_ok hargs]
      rfl
  | method h =>
      have hmethod := method_recognises hd (headed_writtenWithin n)
      exact (hmethod.map TypeSig.method).complete rest ⟨_, rfl, h⟩

end Constructions

/-! ### The reader and its grammar -/

/-- Nothing nests within no level. -/
theorem not_writtenWithin_zero {t : TypeSig} {p : List UInt8} : ¬ WrittenWithin 0 t p := by
  rintro ⟨-, h⟩
  have := t.one_le_depth
  omega

/-- A type within `n + 1` levels is a run of marks and a construction over types within `n`. -/
theorem writtenWithin_succ_iff {n : Nat} {t : TypeSig} {p : List UInt8} :
    WrittenWithin (n + 1) t p ↔
      ∃ m q, p = m ++ q ∧ Marks m ∧ WrittenConstruction (WrittenWithin n) t q := by
  constructor
  · rintro ⟨⟨hm, hc⟩, hn⟩
    exact ⟨_, _, rfl, hm, WrittenConstruction.and_iff.mpr ⟨hc, TypeSig.depth_le_succ_iff.mp hn⟩⟩
  · rintro ⟨m, q, rfl, hm, h⟩
    obtain ⟨hc, hn⟩ := WrittenConstruction.and_iff.mp h
    exact ⟨.mk hm hc, TypeSig.depth_le_succ_iff.mpr hn⟩

/-- What is read as a type within `n + 1` levels is one, if constructions are over types within `n`
levels. -/
theorem type_succ_sound {n : Nat} (ih : Recognises (type n) (WrittenWithin n))
    {bytes rest : List UInt8} {t : TypeSig} (h : type (n + 1) bytes = .ok t rest) :
    ∃ p, bytes = p ++ rest ∧ WrittenWithin (n + 1) t p := by
  obtain ⟨u, mid, hmarks, hmid⟩ := bind_eq_ok_iff.mp h
  obtain ⟨code, mid', hcode, hrest⟩ := bind_eq_ok_iff.mp hmid
  obtain ⟨m, rfl, hm⟩ := skipMarks_sound hmarks
  obtain rfl := next_eq_ok_iff.mp hcode
  suffices hc : ∃ p, mid' = p ++ rest ∧ WrittenConstruction (WrittenWithin n) t (code :: p) by
    obtain ⟨p, rfl, hc⟩ := hc
    exact ⟨m ++ code :: p, by simp, writtenWithin_succ_iff.mpr ⟨m, code :: p, rfl, hm, hc⟩⟩
  cases hs : SimpleType.ofCode? code with
  | some s =>
      rw [hs] at hrest
      obtain ⟨rfl, rfl⟩ := pure_eq_ok_iff.mp hrest
      obtain rfl := SimpleType.code_of_ofCode? hs
      exact ⟨[], rfl, .simple s⟩
  | none =>
      rw [hs] at hrest
      cases hk : NominalKind.ofCode? code with
      | some k =>
          rw [hk] at hrest
          obtain rfl := NominalKind.code_of_ofCode? hk
          obtain ⟨p, rfl, d, rfl, hd⟩ := (token_recognises.map (TypeSig.nominal k)).sound hrest
          exact ⟨p, rfl, .nominal hd⟩
      | none =>
          rw [hk] at hrest
          exact constructed_sound ih hrest

/-- A type within `n + 1` levels is read, if the types within `n` levels are. -/
theorem type_succ_append {n : Nat} (ih : Recognises (type n) (WrittenWithin n)) {p : List UInt8}
    {t : TypeSig} (h : WrittenWithin (n + 1) t p) (rest : List UInt8) :
    type (n + 1) (p ++ rest) = .ok t rest := by
  obtain ⟨m, q, rfl, hm, hc⟩ := writtenWithin_succ_iff.mp h
  obtain ⟨code, q, rfl, hmark, -⟩ := hc.exists_cons
  have hnext : next (code :: (q ++ rest)) = .ok code (q ++ rest) := rfl
  rw [List.append_assoc, List.cons_append, type, bind_of_eq_ok (skipMarks_append hm hmark _),
    bind_of_eq_ok hnext]
  cases hs : SimpleType.ofCode? code with
  | some s =>
      obtain rfl := SimpleType.code_of_ofCode? hs
      obtain ⟨rfl, rfl⟩ := hc.of_simple
      rfl
  | none =>
      cases hk : NominalKind.ofCode? code with
      | some k =>
          obtain rfl := NominalKind.code_of_ofCode? hk
          obtain ⟨d, rfl, hd⟩ := hc.of_nominal
          exact (token_recognises.map (TypeSig.nominal k)).complete rest ⟨d, rfl, hd⟩
      | none => exact constructed_append ih hs hk hc rest

/-- **Types** within a number of levels are recognised. -/
theorem type_recognises (n : Nat) : Recognises (type n) (WrittenWithin n) := by
  induction n with
  | zero =>
      constructor
      · intro bytes rest t h
        cases h
      · intro p t rest h
        exact absurd h not_writtenWithin_zero
  | succ n ih =>
      constructor
      · intro bytes rest t h
        exact type_succ_sound ih h
      · intro p t rest h
        exact type_succ_append ih h rest

/-- **The grammar is unambiguous.** Of two written forms that start the same bytes, neither goes on
where the other has stopped, and both are of the same type. -/
theorem WrittenType.unique {t u : TypeSig} {p q r s : List UInt8} (ht : WrittenType t p)
    (hu : WrittenType u q) (h : p ++ r = q ++ s) : t = u ∧ p = q := by
  have hp := (type_recognises (max t.depth u.depth)).complete r ⟨ht, Nat.le_max_left _ _⟩
  have hq := (type_recognises (max t.depth u.depth)).complete s ⟨hu, Nat.le_max_right _ _⟩
  rw [h, hq] at hp
  obtain ⟨rfl, rfl⟩ := EStateM.Result.ok.inj hp
  exact ⟨rfl, List.append_cancel_right h⟩

/-- Methods over types within a number of levels are recognised. -/
theorem method_type_recognises (n : Nat) :
    Recognises (method (type n)) fun m p =>
      WrittenMethod WrittenType m p ∧ ∀ t ∈ m.types, t.depth ≤ n := by
  have h := method_recognises (type_recognises n) (headed_writtenWithin n)
  have hgrammar : WrittenMethod (WrittenWithin n) = fun m p =>
      WrittenMethod WrittenType m p ∧ ∀ t ∈ m.types, t.depth ≤ n := by
    funext m p
    exact propext WrittenMethod.and_iff
  rw [hgrammar] at h
  exact h

/-- The result of a session that starts is the result of its decoder. -/
theorem Session.read_start_fst {α : Type} (d : (levels : Nat) → Decoder α) (data : ByteArray) :
    ((Session.start data).read d).1 =
      match d budget data.data.toList with
      | .ok a _ => .ok a
      | .error e _ => .error e := by
  simp only [Session.read, Session.start, Nat.sub_zero]
  split <;> rename_i hd <;> simp only [hd]

/-- A session comes to a result only if its decoder does, and stands behind what that has read. -/
theorem Session.eq_ok_of_read {α : Type} {s s' : Session} {d : (levels : Nat) → Decoder α} {a : α}
    (h : s.read d = (.ok a, s')) : d (budget - s.refused) s.rest = .ok a s'.rest := by
  unfold Session.read at h
  split at h
  · rename_i hd
    obtain ⟨ha, rfl⟩ := Prod.mk.inj h
    exact Except.ok.inj ha ▸ hd
  · cases (Prod.mk.inj h).1
  · cases (Prod.mk.inj h).1

/-- A session that starts comes to a result only if its decoder does. -/
theorem Session.exists_of_read_start {α : Type} {d : (levels : Nat) → Decoder α} {data : ByteArray}
    {a : α} (h : ((Session.start data).read d).1 = .ok a) :
    ∃ rest, d budget data.data.toList = .ok a rest :=
  ⟨_, eq_ok_of_read (Prod.ext h rfl)⟩

/-- A session that starts on a written form reads it and stands behind it, and nothing else makes it
do so. -/
theorem Session.read_start_eq_iff {α : Type} {d : (levels : Nat) → Decoder α}
    {G : α → List UInt8 → Prop} (h : Recognises (d budget) G) {a : α} {p rest : List UInt8} :
    (Session.start ⟨(p ++ rest).toArray⟩).read d = (.ok a, ⟨rest, 0⟩) ↔ G a p := by
  constructor
  · intro hread
    obtain ⟨q, hq, hG⟩ := h.sound (eq_ok_of_read hread)
    obtain rfl : p = q := List.append_cancel_right hq
    exact hG
  · intro hG
    have hd : d (budget - 0) (p ++ rest) = .ok a rest := h.complete rest hG
    simp only [Session.read, Session.start, hd]

/-- **A fresh session reads exactly the grammar.** It returns a type and stands behind `p` exactly
if `p` is a written form of the type and the type nests at most 49 levels deep, and likewise for
methods, whatever follows. -/
theorem read_start_iff :
    (∀ (t : TypeSig) (p rest : List UInt8),
      (Session.start ⟨(p ++ rest).toArray⟩).readType = (.ok t, ⟨rest, 0⟩) ↔
        WrittenType t p ∧ t.depth ≤ 49) ∧
    ∀ (m : MethodSig TypeSig) (p rest : List UInt8),
      (Session.start ⟨(p ++ rest).toArray⟩).readMethod = (.ok m, ⟨rest, 0⟩) ↔
        WrittenMethod WrittenType m p ∧ ∀ t ∈ m.types, t.depth ≤ 49 :=
  ⟨fun _ _ _ => Session.read_start_eq_iff (type_recognises 49),
    fun _ _ _ => Session.read_start_eq_iff (d := fun levels => method (type levels))
      (method_type_recognises 49)⟩

end AliasStubs.Signature
