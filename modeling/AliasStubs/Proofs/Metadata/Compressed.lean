import AliasStubs.Metadata.Compressed
import AliasStubs.Proofs.Bytes

/-!
# Decoders and the texts they accept

A decoder is compared with a **grammar**, a relation between values and runs of bytes that mentions
no decoder. It recognises the grammar if it invents nothing and misses nothing: what it consumes
is always a written form of its result, and from every written form, whatever follows it, it
returns the value and leaves exactly what follows.

Compressed integers and tokens are the leaves of all grammars of signatures. A number may be written
in any of the forms that are wide enough for it, so there may be several written forms.

## Main definitions

* `Decoder.Recognises` : a decoder and a grammar agree.
* `Compressed.Written` : the written forms of a number.
* `Compressed.WrittenToken` : the written forms of a token.
* `Decoder.Repeated` : written forms one after the other.

## Main results

* `Compressed.uint_recognises`, `Compressed.token_recognises` : the two compressed forms.
* `Decoder.times_recognises` : a counted repetition consumes as many written forms.
-/

namespace AliasStubs

namespace Decoder

open Reading

variable {α β : Type}

/-! ### Single bytes -/

/-- The next byte is consumed if there is one. -/
theorem next_eq_ok_iff {bytes rest : List UInt8} {b : UInt8} :
    next bytes = .ok b rest ↔ bytes = b :: rest := by
  cases bytes <;> simp [next]

/-- The next byte is seen if there is one, and stays. -/
theorem peek_eq_ok_iff {bytes rest : List UInt8} {b : UInt8} :
    peek bytes = .ok b rest ↔ bytes = rest ∧ rest.head? = some b := by
  cases bytes with
  | nil =>
      constructor
      · intro h
        cases h
      · rintro ⟨rfl, h⟩
        cases h
  | cons c tail =>
      simp only [peek, EStateM.Result.ok.injEq]
      constructor
      · rintro ⟨rfl, rfl⟩
        exact ⟨rfl, rfl⟩
      · rintro ⟨rfl, h⟩
        exact ⟨Option.some.inj h, rfl⟩

/-! ### Recognition -/

/-- The decoder `d` **recognises** the grammar `G`. -/
structure Recognises (d : Decoder α) (G : α → List UInt8 → Prop) : Prop where
  /-- What the decoder consumes is a written form of its result. -/
  sound : ∀ {bytes rest : List UInt8} {a : α}, d bytes = .ok a rest → ∃ p, bytes = p ++ rest ∧ G a p
  /-- The decoder accepts every written form and leaves what follows. -/
  complete : ∀ {p : List UInt8} {a : α} (rest : List UInt8), G a p → d (p ++ rest) = .ok a rest

/-- A value that is made of a recognised one is written like it. -/
theorem Recognises.map {d : Decoder α} {G : α → List UInt8 → Prop} (h : Recognises d G)
    (f : α → β) : Recognises (d >>= fun a => pure (f a)) fun b p => ∃ a, f a = b ∧ G a p where
  sound hb := by
    obtain ⟨a, mid, ha, hb⟩ := bind_eq_ok_iff.mp hb
    obtain ⟨rfl, rfl⟩ := pure_eq_ok_iff.mp hb
    obtain ⟨p, rfl, hp⟩ := h.sound ha
    exact ⟨p, rfl, a, rfl, hp⟩
  complete rest := by
    rintro ⟨a, rfl, hp⟩
    rw [bind_of_eq_ok (h.complete rest hp)]
    rfl

/-- Written forms of the values of a list, one after the other. -/
inductive Repeated (G : α → List UInt8 → Prop) : List α → List UInt8 → Prop
  | nil : Repeated G [] []
  | cons {a : α} {as : List α} {p q : List UInt8} (head : G a p) (tail : Repeated G as q) :
      Repeated G (a :: as) (p ++ q)

/-- A run of written forms meets a further condition if each of its values does. -/
theorem Repeated.and_iff {G : α → List UInt8 → Prop} {P : α → Prop} {as : List α}
    {p : List UInt8} :
    Repeated (fun a q => G a q ∧ P a) as p ↔ Repeated G as p ∧ ∀ a ∈ as, P a := by
  constructor
  · intro h
    induction h with
    | nil => exact ⟨.nil, by simp⟩
    | cons head _ ih => exact ⟨.cons head.1 ih.1, List.forall_mem_cons.mpr ⟨head.2, ih.2⟩⟩
  · rintro ⟨h, hP⟩
    induction h with
    | nil => exact .nil
    | cons head _ ih =>
        obtain ⟨ha, has⟩ := List.forall_mem_cons.mp hP
        exact .cons ⟨head, ha⟩ (ih has)

variable {d : Decoder α} {G : α → List UInt8 → Prop}

/-- What a counted repetition lists stands behind the earlier results. -/
theorem timesOnto_sound (h : Recognises d G) {count : Nat} {done as : List α}
    {bytes rest : List UInt8} (ht : timesOnto d done count bytes = .ok as rest) :
    ∃ bs p, as = done.reverse ++ bs ∧ bs.length = count ∧ bytes = p ++ rest ∧ Repeated G bs p := by
  induction count generalizing done bytes with
  | zero =>
      obtain ⟨rfl, rfl⟩ := pure_eq_ok_iff.mp ht
      exact ⟨[], [], by simp, rfl, rfl, .nil⟩
  | succ count ih =>
      obtain ⟨a, mid, ha, hrest⟩ := bind_eq_ok_iff.mp ht
      obtain ⟨p, rfl, hp⟩ := h.sound ha
      obtain ⟨bs, q, rfl, rfl, rfl, hq⟩ := ih hrest
      exact ⟨a :: bs, p ++ q, by simp, rfl, by simp, .cons hp hq⟩

/-- A counted repetition accepts a run of that many written forms. -/
theorem timesOnto_append (h : Recognises d G) {bs : List α} {p : List UInt8}
    (hp : Repeated G bs p) (done : List α) (rest : List UInt8) :
    timesOnto d done bs.length (p ++ rest) = .ok (done.reverse ++ bs) rest := by
  induction hp generalizing done with
  | nil => exact pure_eq_ok_iff.mpr ⟨(List.append_nil _).symm, rfl⟩
  | cons head _ ih =>
      rw [List.append_assoc, List.length_cons, timesOnto, bind_of_eq_ok (h.complete _ head), ih]
      simp

/-- **Counted repetition** recognises runs of that many written forms. -/
theorem times_recognises (h : Recognises d G) (count : Nat) :
    Recognises (times count d) fun as p => as.length = count ∧ Repeated G as p where
  sound ht := by
    obtain ⟨bs, p, rfl, hlen, rfl, hp⟩ := timesOnto_sound h ht
    exact ⟨p, rfl, hlen, hp⟩
  complete rest := by
    rintro ⟨rfl, hp⟩
    exact timesOnto_append h hp [] rest

/-- A counted repetition whose results are dropped consumes the same. -/
theorem skipTimes_recognises (h : Recognises d G) (count : Nat) :
    Recognises (skipTimes d count) fun _ p => ∃ as, as.length = count ∧ Repeated G as p where
  sound {bytes rest u} ht := by
    induction count generalizing bytes with
    | zero =>
        obtain ⟨-, rfl⟩ := pure_eq_ok_iff.mp ht
        exact ⟨[], rfl, [], rfl, .nil⟩
    | succ count ih =>
        obtain ⟨a, mid, ha, hrest⟩ := bind_eq_ok_iff.mp ht
        obtain ⟨p, rfl, hp⟩ := h.sound ha
        obtain ⟨q, rfl, as, rfl, hq⟩ := ih hrest
        exact ⟨p ++ q, by simp, a :: as, rfl, .cons hp hq⟩
  complete rest := by
    rintro ⟨as, rfl, hp⟩
    induction hp with
    | nil => rfl
    | cons head _ ih =>
        rw [List.append_assoc, List.length_cons, skipTimes, bind_of_eq_ok (h.complete _ head), ih]

end Decoder

namespace Compressed

open Decoder

/-! ### Integers -/

/-- The written forms of a number: one byte `0xxxxxxx`, two bytes that start with `10xxxxxx` or four
that start with `110xxxxx`, the most significant byte first. -/
inductive Written : Nat → List UInt8 → Prop
  | one {n : Nat} (h : n < 0x80) : Written n [UInt8.ofNat n]
  | two {n : Nat} (h : n < 0x4000) :
      Written n [UInt8.ofNat (0x80 + n / 0x100), UInt8.ofNat (n % 0x100)]
  | four {n : Nat} (h : n < 0x20000000) :
      Written n [UInt8.ofNat (0xC0 + n / 0x1000000), UInt8.ofNat (n / 0x10000 % 0x100),
        UInt8.ofNat (n / 0x100 % 0x100), UInt8.ofNat (n % 0x100)]

/-- A byte holds every number below 256. -/
theorem toNat_ofNat {n : Nat} (h : n < 0x100) : (UInt8.ofNat n).toNat = n :=
  UInt8.toNat_ofNat_of_lt h

/-- A first byte `0xxxxxxx` is the whole number. -/
theorem uint_of_lt {b : UInt8} (h : b.toNat < 0x80) (rest : List UInt8) :
    uint (b :: rest) = .ok b.toNat rest := by
  have h0 : b < 0x80 := h
  simp only [uint, h0, if_true]

/-- A first byte `10xxxxxx` takes one more. -/
theorem uint_two {b0 : UInt8} (hge : 0x80 ≤ b0.toNat) (hlt : b0.toNat < 0xC0) (b1 : UInt8)
    (rest : List UInt8) :
    uint (b0 :: b1 :: rest) = .ok (b0.toNat % 0x40 * 256 + b1.toNat) rest := by
  have h0 : ¬ b0 < 0x80 := Nat.not_lt.mpr hge
  have h1 : b0 < 0xC0 := hlt
  simp only [uint, h0, h1, if_true, if_false]

/-- A first byte `110xxxxx` takes three more. -/
theorem uint_four {b0 : UInt8} (hge : 0xC0 ≤ b0.toNat) (hlt : b0.toNat < 0xE0)
    (b1 b2 b3 : UInt8) (rest : List UInt8) :
    uint (b0 :: b1 :: b2 :: b3 :: rest) =
      .ok (((b0.toNat % 0x20 * 256 + b1.toNat) * 256 + b2.toNat) * 256 + b3.toNat) rest := by
  have hge' : 0x80 ≤ b0.toNat := by omega
  have h0 : ¬ b0 < 0x80 := Nat.not_lt.mpr hge'
  have h1 : ¬ b0 < 0xC0 := Nat.not_lt.mpr hge
  have h2 : b0 < 0xE0 := hlt
  simp only [uint, h0, h1, h2, if_true, if_false]

/-- Every written form of a number is read. -/
theorem uint_append {n : Nat} {p : List UInt8} (h : Written n p) (rest : List UInt8) :
    uint (p ++ rest) = .ok n rest := by
  cases h with
  | one h =>
      have hb : (UInt8.ofNat n).toNat = n := toNat_ofNat (by omega)
      rw [List.cons_append, uint_of_lt (by omega), hb, List.nil_append]
  | two h =>
      have h0 : (UInt8.ofNat (0x80 + n / 0x100)).toNat = 0x80 + n / 0x100 := toNat_ofNat (by omega)
      have h1 : (UInt8.ofNat (n % 0x100)).toNat = n % 0x100 := toNat_ofNat (by omega)
      have hn : (0x80 + n / 0x100) % 0x40 * 256 + n % 0x100 = n := by omega
      rw [List.cons_append, List.cons_append, uint_two (by omega) (by omega), h0, h1, hn,
        List.nil_append]
  | four h =>
      have h0 : (UInt8.ofNat (0xC0 + n / 0x1000000)).toNat = 0xC0 + n / 0x1000000 :=
        toNat_ofNat (by omega)
      have h1 : (UInt8.ofNat (n / 0x10000 % 0x100)).toNat = n / 0x10000 % 0x100 :=
        toNat_ofNat (by omega)
      have h2 : (UInt8.ofNat (n / 0x100 % 0x100)).toNat = n / 0x100 % 0x100 :=
        toNat_ofNat (by omega)
      have h3 : (UInt8.ofNat (n % 0x100)).toNat = n % 0x100 := toNat_ofNat (by omega)
      have hn : (((0xC0 + n / 0x1000000) % 0x20 * 256 + n / 0x10000 % 0x100) * 256
          + n / 0x100 % 0x100) * 256 + n % 0x100 = n := by omega
      rw [List.cons_append, List.cons_append, List.cons_append, List.cons_append,
        uint_four (by omega) (by omega), h0, h1, h2, h3, hn, List.nil_append]

/-- A byte is the one that holds its number. -/
theorem ofNat_eq {b : UInt8} {n : Nat} (h : n = b.toNat) : UInt8.ofNat n = b := by
  rw [h, UInt8.ofNat_toNat]

/-- What is read as a number is a written form of it. -/
theorem written_of_uint {bytes rest : List UInt8} {n : Nat} (h : uint bytes = .ok n rest) :
    ∃ p, bytes = p ++ rest ∧ Written n p := by
  unfold uint at h
  split at h
  · cases h
  · rename_i b0 tail
    split at h
    · rename_i hlt
      cases h
      have hw := Written.one (show b0.toNat < 0x80 from hlt)
      rw [ofNat_eq rfl] at hw
      exact ⟨[b0], rfl, hw⟩
    · rename_i h0
      have h0 : 0x80 ≤ b0.toNat := Nat.not_lt.mp h0
      split at h
      · rename_i h1
        have h1 : b0.toNat < 0xC0 := h1
        split at h
        · rename_i b1 _
          cases h
          have hb1 := b1.toNat_lt
          have hw := Written.two
            (show b0.toNat % 0x40 * 256 + b1.toNat < 0x4000 by omega)
          rw [ofNat_eq (b := b0) (by omega), ofNat_eq (b := b1) (by omega)] at hw
          exact ⟨[b0, b1], rfl, hw⟩
        · cases h
      · rename_i h1
        have h1 : 0xC0 ≤ b0.toNat := Nat.not_lt.mp h1
        split at h
        · rename_i h2
          have h2 : b0.toNat < 0xE0 := h2
          split at h
          · rename_i b1 b2 b3 _
            cases h
            have hb1 := b1.toNat_lt
            have hb2 := b2.toNat_lt
            have hb3 := b3.toNat_lt
            have hlt : ((b0.toNat % 0x20 * 256 + b1.toNat) * 256 + b2.toNat) * 256 + b3.toNat
                < 0x20000000 := by omega
            have hw := Written.four hlt
            rw [ofNat_eq (b := b0) (by omega), ofNat_eq (b := b1) (by omega),
              ofNat_eq (b := b2) (by omega), ofNat_eq (b := b3) (by omega)] at hw
            exact ⟨[b0, b1, b2, b3], rfl, hw⟩
          · cases h
        · cases h

/-- **Compressed integers** are recognised in all their written forms. -/
theorem uint_recognises : Recognises uint Written where
  sound := written_of_uint
  complete rest h := uint_append h rest

/-! ### Tokens -/

/-- The written forms of a token: four times the row, and a tag for the table. The row is added to
the table's number as a number, whether or not it fits below it. -/
inductive WrittenToken : Token → List UInt8 → Prop
  | typeDef {row : Nat} {p : List UInt8} (h : Written (4 * row) p) :
      WrittenToken ⟨0x02000000 + row⟩ p
  | typeRef {row : Nat} {p : List UInt8} (h : Written (4 * row + 1) p) :
      WrittenToken ⟨0x01000000 + row⟩ p
  | typeSpec {row : Nat} {p : List UInt8} (h : Written (4 * row + 2) p) :
      WrittenToken ⟨0x1B000000 + row⟩ p

/-- The table depends on the tag alone. -/
theorem tokenTable?_mul_add (row tag : Nat) :
    tokenTable? (4 * row + tag) = tokenTable? tag := by
  have hmod : (4 * row + tag) % 4 = tag % 4 := by omega
  rw [tokenTable?, tokenTable?, hmod]

/-- Reading a token reads a number and splits it into tag and row. -/
theorem token_of_written {row tag : Nat} {t : TableId} {p : List UInt8}
    (h : Written (4 * row + tag) p) (htag : tag < 4) (ht : tokenTable? tag = some t)
    (rest : List UInt8) : token (p ++ rest) = .ok ⟨(t.number <<< 24) + row⟩ rest := by
  have hdiv : (4 * row + tag) / 4 = row := by omega
  rw [token, uint_append h rest]
  simp only [tokenTable?_mul_add row tag, ht, hdiv]

/-- Every written form of a token is read. -/
theorem token_append {t : Token} {p : List UInt8} (h : WrittenToken t p) (rest : List UInt8) :
    token (p ++ rest) = .ok t rest := by
  cases h with
  | typeDef h => exact token_of_written (show Written (4 * _ + 0) p from h) (by decide) rfl rest
  | typeRef h => exact token_of_written h (by decide) rfl rest
  | typeSpec h => exact token_of_written h (by decide) rfl rest

/-- The written forms of a token are those of the number it is split from. -/
theorem writtenToken_of_tokenTable? {value : Nat} {t : TableId} {p : List UInt8}
    (ht : tokenTable? value = some t) (h : Written value p) :
    WrittenToken ⟨(t.number <<< 24) + value / 4⟩ p := by
  have hmod : value % 4 < 4 := Nat.mod_lt _ (by decide)
  unfold tokenTable? at ht
  split at ht
  · rename_i h0
    cases ht
    exact .typeDef ((show value = 4 * (value / 4) by omega) ▸ h)
  · rename_i h1
    cases ht
    exact .typeRef ((show value = 4 * (value / 4) + 1 by omega) ▸ h)
  · rename_i h2
    cases ht
    exact .typeSpec ((show value = 4 * (value / 4) + 2 by omega) ▸ h)
  · cases ht

/-- **Compressed tokens** are recognised in all their written forms. -/
theorem token_recognises : Recognises token WrittenToken where
  sound h := by
    unfold token at h
    split at h
    · rename_i value rest' hu
      obtain ⟨p, rfl, hp⟩ := written_of_uint hu
      split at h
      · rename_i t ht
        cases h
        exact ⟨p, rfl, writtenToken_of_tokenTable? ht hp⟩
      · cases h
    · cases h
  complete rest h := token_append h rest

end Compressed

end AliasStubs
