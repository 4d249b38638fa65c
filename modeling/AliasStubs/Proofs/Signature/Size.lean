import AliasStubs.Proofs.Signature.Recognition

/-!
# Signatures are no larger than their bytes

A signature announces how many arguments, parameters, sizes and lower bounds follow, and the
numbers may be anything up to `2 ^ 29 - 1`. Nothing is gained by announcing much: each type and each
modifier that is recorded has a byte of its own, so what is read is never larger than the bytes it
is read from. A round of a loop takes at least one byte as well, so a loop that is to make more
rounds than there are bytes breaks off, and the signature is refused.

## Main definitions

* `TypeSig.size`, `MethodSig.size` : the number of types and recorded modifiers of a signature.
* `Decoder.Advances` : a decoder that takes at least one byte.
* `Decoder.BreaksOff` : a loop fails after at most as many rounds as there are bytes.
* `Signature.CountsBounded` : counts that are too large are refused.

## Main results

* `Signature.WrittenConstruction.size_le` : a type is no larger than its written forms, if its parts
  are not.
* `Decoder.Loop.exists_breaksOff` : every loop whose rounds take bytes breaks off.
* `Signature.size_le_consumed` : **what is read is no larger than what is consumed**.
-/

namespace AliasStubs

/-! ### The size of a signature -/

mutual

/-- The number of types that a type is made of, and of the modifiers that it records. The definition
that a generic type is over counts as a type. -/
def TypeSig.size : TypeSig → Nat
  | .simple _ => 1
  | .nominal _ _ => 1
  | .typeParam _ => 1
  | .methodParam _ => 1
  | .pointer target => target.size + 1
  | .byRef target => target.size + 1
  | .vector element => element.size + 1
  | .array element _ => element.size + 1
  | .generic _ _ arguments => TypeSig.sizes arguments + 2
  | .method signature => signature.size + 1

/-- The size of several types together. -/
def TypeSig.sizes : List TypeSig → Nat
  | [] => 0
  | t :: ts => t.size + TypeSig.sizes ts

/-- The number of the types of a method, and of the modifiers that it records. -/
def MethodSig.size : MethodSig TypeSig → Nat
  | ⟨_, _, _, _, ret, params, varargs⟩ =>
    ret.size + (ParamSig.sizes params + ParamSig.sizes varargs)

/-- The size of the type of a parameter, and the number of its modifiers. -/
def ParamSig.size : ParamSig TypeSig → Nat
  | ⟨modifiers, _, type⟩ => modifiers.length + type.size

/-- The size of several parameters together. -/
def ParamSig.sizes : List (ParamSig TypeSig) → Nat
  | [] => 0
  | p :: ps => p.size + ParamSig.sizes ps

end

theorem TypeSig.one_le_size (t : TypeSig) : 1 ≤ t.size := by
  cases t <;> simp [TypeSig.size]

theorem ParamSig.one_le_size (p : ParamSig TypeSig) : 1 ≤ p.size := by
  obtain ⟨modifiers, byRef, type⟩ := p
  exact Nat.le_trans type.one_le_size (Nat.le_add_left _ _)

namespace Decoder

open Reading

variable {α β σ : Type}

/-- Written forms in a row are at least as long as the values are large together. -/
theorem Repeated.le_length {G : α → List UInt8 → Prop} {as : List α} {p : List UInt8}
    (h : Repeated G as p) {size : α → Nat} {sizes : List α → Nat} (hnil : sizes [] = 0)
    (hcons : ∀ a as, sizes (a :: as) = size a + sizes as)
    (hG : ∀ a p, G a p → size a ≤ p.length) : sizes as ≤ p.length := by
  induction h with
  | nil =>
      rw [hnil]
      exact Nat.zero_le _
  | cons head _ ih =>
      rw [hcons, List.length_append]
      exact Nat.add_le_add (hG _ _ head) ih

/-! ### What a decoder comes to -/

/-- On `bytes`, the decoder `d` **comes to** running `d'` on `bytes'`: it starts with it, or its
first part does, or what follows its first part does. -/
inductive Comes : {α β : Type} → (d : Decoder α) → (bytes : List UInt8) → (d' : Decoder β) →
    (bytes' : List UInt8) → Prop
  | here {α : Type} {d : Decoder α} {bytes : List UInt8} : Comes d bytes d bytes
  | first {α β γ : Type} {d : Decoder α} {f : α → Decoder β} {d' : Decoder γ}
      {bytes bytes' : List UInt8} (h : Comes d bytes d' bytes') : Comes (d >>= f) bytes d' bytes'
  | next {α β γ : Type} {d : Decoder α} {f : α → Decoder β} {d' : Decoder γ} {a : α}
      {bytes mid bytes' : List UInt8} (ha : d bytes = .ok a mid) (h : Comes (f a) mid d' bytes') :
      Comes (d >>= f) bytes d' bytes'

/-- **A decoder fails where one that it comes to does.** -/
theorem Comes.eq_error {d : Decoder α} {d' : Decoder β} {bytes bytes' stop : List UInt8}
    {e : Failure} (h : Comes d bytes d' bytes') (herror : d' bytes' = .error e stop) :
    d bytes = .error e stop := by
  induction h with
  | here => exact herror
  | first _ ih => exact bind_of_eq_error (ih herror) _
  | next ha _ ih => rw [bind_of_eq_ok ha, ih herror]

/-! ### Loops -/

/-- A decoder that takes at least one byte whenever it succeeds. -/
def Advances (d : Decoder α) : Prop :=
  ∀ {bytes rest : List UInt8} {a : α}, d bytes = .ok a rest → rest.length < bytes.length

/-- Where every written form has a byte, a decoder takes one. -/
theorem Recognises.advances {d : Decoder α} {G : α → List UInt8 → Prop} (h : Recognises d G)
    (hG : ∀ {a p}, G a p → 1 ≤ p.length) : Advances d := by
  intro bytes rest a hd
  obtain ⟨p, rfl, hp⟩ := h.sound hd
  have := hG hp
  rw [List.length_append]
  omega

/-- A decoder still takes a byte if something is made of its result. -/
theorem Advances.map {d : Decoder α} (h : Advances d) (f : α → β) :
    Advances (d >>= fun a => pure (f a)) := by
  intro bytes rest b hb
  obtain ⟨a, mid, ha, hb⟩ := bind_eq_ok_iff.mp hb
  obtain ⟨-, rfl⟩ := pure_eq_ok_iff.mp hb
  exact h ha

/-- The loop **breaks off** with `e` where `stop` is left: there is a number of rounds, at most as
many as there are bytes, that it makes, and every count above that ends in the next round. -/
def BreaksOff (loop : Nat → Decoder β) (bytes : List UInt8) (e : Failure) (stop : List UInt8) :
    Prop :=
  ∃ rounds ≤ bytes.length, (∃ b rest, loop rounds bytes = .ok b rest) ∧
    ∀ count, rounds < count → loop count bytes = .error e stop

/-- A loop that breaks off fails if it is to make more rounds than there are bytes. -/
theorem BreaksOff.eq_error {loop : Nat → Decoder β} {bytes stop : List UInt8} {e : Failure}
    (h : BreaksOff loop bytes e stop) {count : Nat} (hcount : bytes.length < count) :
    loop count bytes = .error e stop := by
  obtain ⟨rounds, hle, -, herror⟩ := h
  exact herror count (by omega)

/-- A `loop` makes so many rounds, one after the other, each from the state that the one before has
come to. -/
structure Loop (loop : Nat → σ → Decoder β) (round : σ → Decoder σ) : Prop where
  zero : ∀ s bytes, ∃ b, loop 0 s bytes = .ok b bytes
  succ : ∀ count s, loop (count + 1) s = round s >>= loop count

section Loops

variable {loop : Nat → σ → Decoder β} {round : σ → Decoder σ} {s s' : σ}
  {bytes rest stop : List UInt8} {e : Failure}

/-- A loop goes on behind a round. -/
theorem Loop.succ_of_ok (h : Loop loop round) (hs : round s bytes = .ok s' rest) (count : Nat) :
    loop (count + 1) s bytes = loop count s' rest := by
  rw [h.succ, bind_of_eq_ok hs]

/-- A round that fails is the last one. -/
theorem Loop.succ_of_error (h : Loop loop round) (hs : round s bytes = .error e stop)
    (count : Nat) : loop (count + 1) s bytes = .error e stop := by
  rw [h.succ, bind_of_eq_error hs]

/-- **Every loop whose rounds take bytes breaks off.** -/
theorem Loop.exists_breaksOff (h : Loop loop round) (hround : ∀ s, Advances (round s)) (s : σ)
    (bytes : List UInt8) : ∃ e stop, BreaksOff (fun count => loop count s) bytes e stop := by
  induction hlength : bytes.length using Nat.strongRecOn generalizing s bytes with
  | ind length ih =>
      cases hs : round s bytes with
      | error e stop =>
          refine ⟨e, stop, 0, Nat.zero_le _, ?_, fun count hcount => ?_⟩
          · obtain ⟨b, hb⟩ := h.zero s bytes
            exact ⟨b, bytes, hb⟩
          · obtain ⟨n, rfl⟩ := Nat.exists_eq_add_of_lt hcount
            exact h.succ_of_error hs (0 + n)
      | ok s' mid =>
          have hlt := hround s hs
          obtain ⟨e, stop, rounds, hle, ⟨b, rest, hok⟩, herror⟩ :=
            ih mid.length (hlength ▸ hlt) s' mid rfl
          refine ⟨e, stop, rounds + 1, by omega, ⟨b, rest, ?_⟩, fun count hcount => ?_⟩
          · exact (h.succ_of_ok hs rounds).trans hok
          · obtain ⟨n, rfl⟩ := Nat.exists_eq_add_of_lt hcount
            exact (h.succ_of_ok hs _).trans (herror _ (by omega))

end Loops

/-- A counted repetition is a loop. -/
theorem loop_timesOnto (d : Decoder α) :
    Loop (fun count done => timesOnto d done count) fun done =>
      d >>= fun a => pure (a :: done) where
  zero done bytes := ⟨done.reverse, rfl⟩
  succ count done := by simp only [timesOnto, bind_assoc, pure_bind]

/-- So is one whose results are dropped. -/
theorem loop_skipTimes (d : Decoder α) :
    Loop (fun count (_ : Unit) => skipTimes d count) fun _ => d >>= fun _ => pure () where
  zero _ bytes := ⟨(), rfl⟩
  succ count _ := by simp only [skipTimes, bind_assoc, pure_bind]

end Decoder

namespace Signature

open Compressed Decoder Reading

/-! ### Written forms and what they say -/

/-- Every modifier that is recorded takes a byte. -/
theorem WrittenModifiers.length_le {ms : List Token} {p : List UInt8} (h : WrittenModifiers ms p) :
    ms.length ≤ p.length := by
  induction h with
  | nil => exact Nat.le_refl _
  | cons _ _ _ ih =>
      rw [List.length_cons, List.length_cons, List.length_append]
      omega

section Sizes

/-- Every written form is at least as long as its type is large. -/
def SizeLe (E : TypeSig → List UInt8 → Prop) : Prop :=
  ∀ {t : TypeSig} {p : List UInt8}, E t p → t.size ≤ p.length

variable {E : TypeSig → List UInt8 → Prop}

theorem WrittenParam.size_le (hE : SizeLe E) {x : ParamSig TypeSig} {p : List UInt8}
    (h : WrittenParam E x p) : x.size ≤ p.length := by
  cases h with
  | byRef hm ht =>
      have hm := hm.length_le
      have ht := hE ht
      rw [ParamSig.size, List.length_append, List.length_cons]
      omega
  | byValue hm ht =>
      rw [ParamSig.size, List.length_append]
      exact Nat.add_le_add hm.length_le (hE ht)

theorem WrittenFurther.size_le (hE : SizeLe E) {past : Bool} {vs : List (ParamSig TypeSig)}
    {p : List UInt8} (h : WrittenFurther E past vs p) : ParamSig.sizes vs ≤ p.length := by
  induction h with
  | nil => exact Nat.le_refl _
  | marked head _ ih =>
      have hhead := head.size_le hE
      rw [ParamSig.sizes, List.length_cons, List.length_append]
      omega
  | plain head _ ih =>
      rw [ParamSig.sizes, List.length_append]
      exact Nat.add_le_add (head.size_le hE) ih

/-- A method is no larger than its written forms. -/
theorem WrittenMethod.size_le (hE : SizeLe E) {m : MethodSig TypeSig} {p : List UInt8}
    (h : WrittenMethod E m p) : m.size ≤ p.length := by
  obtain ⟨-, -, hret, fixed, further⟩ := h
  have hret := hret.size_le hE
  have hfixed : ParamSig.sizes _ ≤ _ :=
    fixed.le_length rfl (fun _ _ => rfl) fun _ _ => WrittenParam.size_le hE
  have hfurther := further.size_le hE
  rw [MethodSig.size]
  simp only [List.length_cons, List.length_append]
  omega

/-- A type is no larger than its written forms, if its parts are not. -/
theorem WrittenConstruction.size_le (hE : SizeLe E) {t : TypeSig} {p : List UInt8}
    (h : WrittenConstruction E t p) : t.size ≤ p.length := by
  cases h with
  | simple => exact Nat.le_refl _
  | nominal | typeParam | methodParam => exact Nat.le_add_left _ _
  | pointer ht | byRef ht | vector ht => exact Nat.succ_le_succ (hE ht)
  | array ht =>
      have ht := hE ht
      rw [TypeSig.size, List.length_cons, List.length_append]
      omega
  | generic _ _ has =>
      have has : TypeSig.sizes _ ≤ _ := has.le_length rfl (fun _ _ => rfl) fun _ _ => hE
      simp only [TypeSig.size, List.length_cons, List.length_append]
      omega
  | method hm => exact Nat.succ_le_succ (hm.size_le hE)

/-- **A type is no larger than its written forms.** -/
theorem WrittenWithin.size_le {n : Nat} : SizeLe (WrittenWithin n) := by
  induction n with
  | zero => exact fun h => absurd h not_writtenWithin_zero
  | succ n ih =>
      intro t p h
      obtain ⟨m, q, rfl, -, hc⟩ := writtenWithin_succ_iff.mp h
      rw [List.length_append]
      exact Nat.le_trans (hc.size_le ih) (Nat.le_add_left _ _)

end Sizes

/-! ### The loops of a signature -/

theorem uint_advances : Advances Compressed.uint :=
  length_of_uint

theorem type_advances (levels : Nat) : Advances (type levels) :=
  (type_recognises levels).advances fun h => Nat.le_trans (TypeSig.one_le_size _) h.size_le

theorem param_advances (levels : Nat) : Advances (param (type levels)) :=
  (param_recognises (type_recognises levels) (headed_writtenWithin levels)).advances fun h =>
    Nat.le_trans (ParamSig.one_le_size _) (h.size_le WrittenWithin.size_le)

/-- The parameters are read in a loop. -/
def paramRound {τ : Type} (type : Decoder τ) :
    Bool × List (ParamSig τ) × List (ParamSig τ) →
      Decoder (Bool × List (ParamSig τ) × List (ParamSig τ))
  | (past, fixed, further) => do
    let marked ← mark sentinel
    let p ← param type
    if past || marked then
      pure (true, fixed, p :: further)
    else
      pure (false, p :: fixed, further)

theorem loop_paramsOnto {τ : Type} (type : Decoder τ) :
    Loop (fun count (s : Bool × List (ParamSig τ) × List (ParamSig τ)) =>
      paramsOnto type count s.1 s.2.1 s.2.2) (paramRound type) where
  zero s bytes := ⟨_, rfl⟩
  succ count s := by
    obtain ⟨past, fixed, further⟩ := s
    simp only [paramsOnto, paramRound, bind_assoc]
    refine bind_congr fun marked => bind_congr fun p => ?_
    split <;> rw [pure_bind]

/-! ### Counts that are too large -/

variable {levels : Nat} {bytes : List UInt8}

/-- Behind the marks before a type stands its element code. -/
theorem type_eq_constructed {code : UInt8} {rest : List UInt8}
    (hmarks : skipMarks bytes = .ok () (code :: rest)) (hs : SimpleType.ofCode? code = none)
    (hk : NominalKind.ofCode? code = none) :
    type (levels + 1) bytes = constructed levels (type levels) code rest := by
  have hnext : Decoder.next (code :: rest) = .ok code rest := rfl
  rw [type, bind_of_eq_ok hmarks, bind_of_eq_ok hnext, hs, hk]

/-- **Counts are bounded by the bytes behind them.** Whatever a decoder does on its `start`: if it
comes to a type or a method with a count that is greater than the number of the bytes that are left
for its loop, the loop breaks off after at most as many rounds as there are bytes, and the decoder
fails with it. -/
structure CountsBounded {α : Type} (d : Decoder α) (start : List UInt8) (levels : Nat) : Prop where
  arguments {bytes b₁ b₂ rest : List UInt8} {base : NominalKind × Token} {count : Nat}
    (comes : Comes d start (type (levels + 1)) bytes)
    (marks : skipMarks bytes = .ok () (0x15 :: b₁)) (hbase : genericBase levels b₁ = .ok base b₂)
    (hcount : Compressed.uint b₂ = .ok count rest) (large : rest.length < count) :
    ∃ e stop, BreaksOff (fun n => times n (type levels)) rest e stop ∧ d start = .error e stop
  sizes {bytes b₁ b₂ b₃ rest : List UInt8} {element : TypeSig} {rank count : Nat}
    (comes : Comes d start (type (levels + 1)) bytes)
    (marks : skipMarks bytes = .ok () (0x14 :: b₁)) (helement : type levels b₁ = .ok element b₂)
    (hrank : Compressed.uint b₂ = .ok rank b₃) (hcount : Compressed.uint b₃ = .ok count rest)
    (large : rest.length < count) :
    ∃ e stop, BreaksOff (skipTimes Compressed.uint) rest e stop ∧ d start = .error e stop
  lowerBounds {bytes b₁ b₂ b₃ b₄ b₅ rest : List UInt8} {element : TypeSig} {rank sizes count : Nat}
    (comes : Comes d start (type (levels + 1)) bytes)
    (marks : skipMarks bytes = .ok () (0x14 :: b₁)) (helement : type levels b₁ = .ok element b₂)
    (hrank : Compressed.uint b₂ = .ok rank b₃) (hsizes : Compressed.uint b₃ = .ok sizes b₄)
    (hskip : skipTimes Compressed.uint sizes b₄ = .ok () b₅)
    (hcount : Compressed.uint b₅ = .ok count rest) (large : rest.length < count) :
    ∃ e stop, BreaksOff (skipTimes Compressed.uint) rest e stop ∧ d start = .error e stop
  parameters {bytes b₁ b₂ b₃ rest : List UInt8} {convention : UInt8} {generics count : Nat}
    {ret : ParamSig TypeSig} (comes : Comes d start (method (type levels)) bytes)
    (hconvention : Decoder.next bytes = .ok convention b₁)
    (hgenerics : genericCount convention b₁ = .ok generics b₂)
    (hcount : Compressed.uint b₂ = .ok count b₃) (hret : param (type levels) b₃ = .ok ret rest)
    (large : rest.length < count) :
    ∃ e stop, BreaksOff (fun n => paramsOnto (type levels) n false [] []) rest e stop ∧
      d start = .error e stop

theorem exists_breaksOff_times (levels : Nat) (bytes : List UInt8) :
    ∃ e stop, BreaksOff (fun n => times n (type levels)) bytes e stop :=
  (loop_timesOnto (type levels)).exists_breaksOff
    (fun _ => Advances.map (type_advances levels) _) [] bytes

theorem exists_breaksOff_skipTimes (bytes : List UInt8) :
    ∃ e stop, BreaksOff (skipTimes Compressed.uint) bytes e stop :=
  (loop_skipTimes Compressed.uint).exists_breaksOff (fun _ => Advances.map uint_advances _) () bytes

theorem paramRound_advances (levels : Nat)
    (s : Bool × List (ParamSig TypeSig) × List (ParamSig TypeSig)) :
    Advances (paramRound (type levels) s) := by
  intro bytes rest s' h
  obtain ⟨past, fixed, further⟩ := s
  obtain ⟨marked, b₁, hmark, h⟩ := bind_eq_ok_iff.mp h
  obtain ⟨p, b₂, hp, h⟩ := bind_eq_ok_iff.mp h
  have hrest : b₂ = rest := by
    split at h <;> exact (pure_eq_ok_iff.mp h).2
  have hmarked : b₁.length ≤ bytes.length := by
    rcases of_mark_eq_ok hmark with ⟨-, rfl⟩ | ⟨-, rfl, -⟩
    · exact Nat.le_succ _
    · exact Nat.le_refl _
  have hparam := param_advances levels hp
  rw [hrest] at hparam
  omega

theorem exists_breaksOff_paramsOnto (levels : Nat) (bytes : List UInt8) :
    ∃ e stop, BreaksOff (fun n => paramsOnto (type levels) n false [] []) bytes e stop :=
  (loop_paramsOnto (type levels)).exists_breaksOff (paramRound_advances levels)
    (false, [], []) bytes

/-- Every decoder fails at a count that is too large. -/
theorem countsBounded {α : Type} (d : Decoder α) (start : List UInt8) (levels : Nat) :
    CountsBounded d start levels where
  arguments {_ _ _ rest base count} comes marks hbase hcount large := by
    obtain ⟨e, stop, hloop⟩ := exists_breaksOff_times levels rest
    obtain ⟨kind, definition⟩ := base
    refine ⟨e, stop, hloop, comes.eq_error ?_⟩
    rw [type_eq_constructed marks rfl rfl]
    change (genericBase levels >>= _) _ = _
    rw [bind_of_eq_ok hbase]
    change (Compressed.uint >>= _) _ = _
    rw [bind_of_eq_ok hcount, bind_of_eq_error (hloop.eq_error large)]
  sizes {_ _ _ _ rest _ _ count} comes marks helement hrank hcount large := by
    obtain ⟨e, stop, hloop⟩ := exists_breaksOff_skipTimes rest
    refine ⟨e, stop, hloop, comes.eq_error ?_⟩
    rw [type_eq_constructed marks rfl rfl]
    change (type levels >>= _) _ = _
    rw [bind_of_eq_ok helement, bind_of_eq_ok hrank, bind_of_eq_ok hcount,
      bind_of_eq_error (hloop.eq_error large)]
  lowerBounds {_ _ _ _ _ _ rest _ _ _ count} comes marks helement hrank hsizes hskip hcount
      large := by
    obtain ⟨e, stop, hloop⟩ := exists_breaksOff_skipTimes rest
    refine ⟨e, stop, hloop, comes.eq_error ?_⟩
    rw [type_eq_constructed marks rfl rfl]
    change (type levels >>= _) _ = _
    rw [bind_of_eq_ok helement, bind_of_eq_ok hrank, bind_of_eq_ok hsizes, bind_of_eq_ok hskip,
      bind_of_eq_ok hcount, bind_of_eq_error (hloop.eq_error large)]
  parameters {_ _ _ _ rest _ _ count _} comes hconvention hgenerics hcount hret large := by
    obtain ⟨e, stop, hloop⟩ := exists_breaksOff_paramsOnto levels rest
    refine ⟨e, stop, hloop, comes.eq_error ?_⟩
    rw [method, bind_of_eq_ok hconvention, bind_of_eq_ok hgenerics, bind_of_eq_ok hcount,
      bind_of_eq_ok hret, bind_of_eq_error (hloop.eq_error large)]

/-- The second of two arguments comes to the method that it points to, whatever the method
announces. -/
example (bytes : List UInt8) :
    Comes (times 2 (type 2)) (0x08 :: 0x1B :: bytes) (method (type 1)) bytes :=
  have hmarks (b : UInt8) (rest : List UInt8) (hb : isMark b = false) :
      skipMarks (b :: rest) = .ok () (b :: rest) := skipMarks_append .nil hb rest
  have hfirst : type 2 (0x08 :: 0x1B :: bytes) = .ok (.simple .i4) (0x1B :: bytes) := by
    rw [type, bind_of_eq_ok (hmarks 0x08 _ rfl)]
    rfl
  have hsecond : Comes (type 2) (0x1B :: bytes) (method (type 1)) bytes :=
    .next (hmarks 0x1B _ rfl) (.next rfl (.first .here))
  .next hfirst (.first hsecond)

/-! ### What is read -/

/-- **Signatures do not grow when they are read.** What is read as a type or a method is no larger,
in types and recorded modifiers together, than the bytes that are consumed for it, whatever it
announces: a count that is greater than the number of bytes that are left makes reading fail, after
at most as many rounds of its loop. -/
theorem size_le_consumed :
    (∀ (s s' : Session) (t : TypeSig), s.readType = (.ok t, s') →
      ∃ p, s.rest = p ++ s'.rest ∧ t.size ≤ p.length ∧ p.length ≤ s.rest.length) ∧
    (∀ (s s' : Session) (m : MethodSig TypeSig), s.readMethod = (.ok m, s') →
      ∃ p, s.rest = p ++ s'.rest ∧ m.size ≤ p.length ∧ p.length ≤ s.rest.length) ∧
    ∀ (α : Type) (d : Decoder α) (start : List UInt8) (levels : Nat),
      CountsBounded d start levels := by
  have hfront {p rest bytes : List UInt8} (h : bytes = p ++ rest) : p.length ≤ bytes.length := by
    rw [h, List.length_append]
    exact Nat.le_add_right _ _
  refine ⟨fun s s' t h => ?_, fun s s' m h => ?_, fun _ => countsBounded⟩
  · obtain ⟨p, hp, hwritten⟩ := (type_recognises _).sound (Session.eq_ok_of_read h)
    exact ⟨p, hp, hwritten.size_le, hfront hp⟩
  · have hmethod :=
      method_recognises (type_recognises (budget - s.refused)) (headed_writtenWithin _)
    obtain ⟨p, hp, hwritten⟩ := hmethod.sound (Session.eq_ok_of_read h)
    exact ⟨p, hp, hwritten.size_le WrittenWithin.size_le, hfront hp⟩

end Signature

end AliasStubs
