import AliasStubs.Proofs.Machine.Parser

/-!
# The parts of a signature on a machine

A parser on the machine **simulates** a decoder: from a position in the data it comes to what the
decoder comes to from the bytes that are left there, and it stands in front of what the decoder
leaves. The machine has neither faults nor loops that run out of rounds, then, since a decoder has
none to come to.

Two things are kept track of on the way. The level is given back, whatever the parser comes to; only
a refusal to go deeper leaves one level open. And no more **marks** are left than there were: bytes
that stand for a pinned value or start a modifier. The nested calls are bounded in terms of them.

## Main definitions

* `Parser.At` : a parser stands in front of the bytes that are left.
* `Parser.Simulates` : a parser comes to what a decoder comes to.

## Main results

* `Parser.Simulates.bind` : **simulations compose**.
* `Parser.compressedUint_simulates`, `Parser.compressedToken_simulates`,
  `Parser.modifiers_simulates`, `Parser.paramsOnto_simulates`, `Parser.methodOf_simulates` : the
  parts that do not nest.
-/

namespace AliasStubs.Machine.Parser

open Signature (requiredModifier optionalModifier pinned byReference sentinel isModifier isMark)

variable {α β τ : Type} {data : ByteArray} {p q : Parser} {bytes rest : List UInt8}
  {depth marks : Nat}

/-! ### The relation -/

/-- The number of bytes that may be marks. -/
def markCount (bytes : List UInt8) : Nat :=
  bytes.countP isMark

theorem markCount_le_size (data : ByteArray) : markCount data.data.toList ≤ data.size :=
  List.countP_le_length

/-- A parser stands in front of what is left of the data. -/
structure At (data : ByteArray) (p : Parser) (bytes : List UInt8) : Prop where
  le : p.position ≤ data.size
  drop : data.data.toList.drop p.position = bytes

/-- The number of levels that a failure leaves open: one, if it is the refusal to go deeper. -/
def levelsLeft : Failure → Nat
  | .recursionLimit _ => 1
  | _ => 0

/-- A parser has come to what a decoder has come to that started on `bytes`. -/
inductive Agree (data : ByteArray) (depth : Nat) (bytes : List UInt8) :
    EStateM.Result Stop Parser α → EStateM.Result Failure (List UInt8) α → Prop
  | ok {a : α} {p : Parser} {rest : List UInt8} (stands : At data p rest) (level : p.depth = depth)
      (suffix : rest <:+ bytes) : Agree data depth bytes (.ok a p) (.ok a rest)
  | error {e : Failure} {p : Parser} {rest : List UInt8} (stands : At data p rest)
      (level : p.depth = depth + levelsLeft e) :
      Agree data depth bytes (.error (.failure e) p) (.error e rest)

/-- A parser **simulates** a decoder on the levels and the number of marks given. -/
structure Simulates (data : ByteArray) (depth marks : Nat) (r : Parse α) (d : Decoder α) :
    Prop where
  agree {p : Parser} {bytes : List UInt8} : At data p bytes → p.depth = depth →
    markCount bytes ≤ marks → Agree data depth bytes (r p) (d bytes)

theorem markCount_le_of_suffix (h : rest <:+ bytes) : markCount rest ≤ markCount bytes :=
  h.sublist.countP_le

/-- A parser that agrees from a later part on agrees from the whole. -/
theorem Agree.of_suffix {x : EStateM.Result Stop Parser α}
    {y : EStateM.Result Failure (List UInt8) α} (h : Agree data depth rest x y)
    (hsuffix : rest <:+ bytes) : Agree data depth bytes x y := by
  cases h with
  | ok stands level suffix => exact .ok stands level (suffix.trans hsuffix)
  | error stands level => exact .error stands level

/-- A parser that goes on where a decoder goes on agrees with it, if what went before agrees. -/
theorem Agree.bind {r : Parse α} {d : Decoder α} {f : α → Parse β} {g : α → Decoder β}
    (h : Agree data depth bytes (r p) (d bytes))
    (hf : ∀ {a q rest}, d bytes = .ok a rest → At data q rest → q.depth = depth →
      rest <:+ bytes → Agree data depth rest (f a q) (g a rest)) :
    Agree data depth bytes ((r >>= f) p) ((d >>= g) bytes) := by
  change Agree data depth bytes (EStateM.bind r f p) (EStateM.bind d g bytes)
  unfold EStateM.bind
  generalize hx : r p = x at h
  generalize hy : d bytes = y at h
  cases h with
  | ok stands level suffix => exact (hf hy stands level suffix).of_suffix suffix
  | error stands level => exact .error stands level

namespace Simulates

/-- **Simulations compose.** -/
theorem bind {r : Parse α} {d : Decoder α} {f : α → Parse β} {g : α → Decoder β}
    (h : Simulates data depth marks r d)
    (hf : ∀ a, (∃ bytes rest, d bytes = .ok a rest) → Simulates data depth marks (f a) (g a)) :
    Simulates data depth marks (r >>= f) (d >>= g) := by
  constructor
  intro p bytes hat hdepth hmarks
  refine (h.agree hat hdepth hmarks).bind fun {a q rest} hd hat' hdepth' hsuffix => ?_
  have hmarks' : markCount rest ≤ marks := Nat.le_trans (markCount_le_of_suffix hsuffix) hmarks
  exact (hf a ⟨bytes, rest, hd⟩).agree hat' hdepth' hmarks'

theorem pure (a : α) : Simulates data depth marks (pure a) (pure a) :=
  ⟨fun hat hdepth _ => .ok hat hdepth (List.suffix_refl _)⟩

theorem throw (d : Defect) :
    Simulates data depth marks (throw (.failure (.malformed d)) : Parse α)
      (Decoder.malformed d) :=
  ⟨fun hat hdepth _ => .error hat hdepth⟩

/-- What is made of a result does not matter. -/
theorem map {r : Parse α} {d : Decoder α} (h : Simulates data depth marks r d) (f : α → β) :
    Simulates data depth marks (r >>= fun a => Pure.pure (f a)) (d >>= fun a => Pure.pure (f a)) :=
  h.bind fun a _ => pure (f a)

end Simulates

/-! ### Bytes -/

theorem start_at (data : ByteArray) : At data start data.data.toList :=
  ⟨Nat.zero_le _, rfl⟩

/-- Where something is left, the position is inside the data. -/
theorem At.lt {b : UInt8} (h : At data p (b :: rest)) : p.position < data.size := by
  have hlength := congrArg List.length h.drop
  simp only [List.length_drop, Array.length_toList, ByteArray.size_data, List.length_cons]
    at hlength
  omega

/-- Where nothing is left, the position is the end of the data. -/
theorem At.size_le (h : At data p []) : data.size ≤ p.position := by
  have hlength := congrArg List.length h.drop
  simpa [Nat.sub_eq_zero_iff_le] using hlength

theorem At.length_le (h : At data p bytes) : bytes.length ≤ data.size := by
  rw [← h.drop, List.length_drop, Array.length_toList, ByteArray.size_data]
  omega

/-- The next byte stands at the position. -/
theorem At.byteAt {b : UInt8} (h : At data p (b :: rest)) : Bytes.byteAt data p.position = b := by
  have hget : data.data.toList[p.position]? = some b := by
    rw [← List.head?_drop, h.drop]
    rfl
  rw [Bytes.byteAt, dif_pos h.lt]
  rw [List.getElem?_eq_getElem (by simpa using h.lt)] at hget
  exact Option.some.inj hget

/-- Behind the next byte stands the rest. -/
theorem At.next {b : UInt8} (h : At data p (b :: rest)) :
    At data { p with position := p.position + 1 } rest where
  le := h.lt
  drop := by
    change List.drop (p.position + 1) _ = rest
    rw [← List.drop_drop, h.drop]
    rfl

/-- The next byte is read. -/
theorem At.readByte {b : UInt8} (hdata : Addressable data) (h : At data p (b :: rest)) :
    Parser.readByte data p = .ok b { p with position := p.position + 1 } := by
  have hread : uint data 1 p.position = .ok b.toNat (p.position + 1) := by
    rw [uint_eq hdata, liftReader, Bytes.uint, if_pos (Nat.succ_le_of_lt h.lt)]
    simp only [Bytes.littleEndian, h.byteAt, Nat.mul_zero, Nat.add_zero]
  change EStateM.bind (atPosition (uint data 1)) _ p = _
  simp only [EStateM.bind, atPosition, hread]
  change EStateM.Result.ok (UInt8.ofNat b.toNat) _ = _
  rw [UInt8.ofNat_toNat]

/-- No byte is read behind the end. -/
theorem At.readByte_nil (hdata : Addressable data) (h : At data p []) :
    Parser.readByte data p = .error (.failure .outOfBounds) p := by
  have hread : uint data 1 p.position = .error (.failure .outOfBounds) p.position := by
    have hend : ¬ p.position + 1 ≤ data.size := Nat.not_le.mpr (Nat.lt_succ_of_le h.size_le)
    rw [uint_eq hdata, liftReader, Bytes.uint, if_neg hend]
  have hstep : atPosition (uint data 1) p = .error (.failure .outOfBounds) p := by
    simp only [atPosition, hread]
  rw [Parser.readByte, Stateful.bind_of_eq_error hstep]

/-- The next byte is looked at. -/
theorem At.peek {b : UInt8} (h : At data p (b :: rest)) : Parser.peek data p = .ok b p := by
  simp only [Parser.peek, Stateful.get_bind_apply, if_neg (Nat.not_le.mpr h.lt),
    byteAt_of_lt h.lt, h.byteAt]
  rfl

/-- Nothing is looked at behind the end. -/
theorem At.peek_nil (h : At data p []) : Parser.peek data p = .error (.failure .outOfBounds) p := by
  simp only [Parser.peek, Stateful.get_bind_apply, if_pos h.size_le, Stateful.throw_bind]
  rfl

/-! ### Compressed integers by their bits -/

/-- What holds of every number below 256 holds of every byte. -/
theorem forall_byte {P : UInt8 → Prop} (h : ∀ n < 256, P (UInt8.ofNat n)) (b : UInt8) : P b := by
  rw [← UInt8.ofNat_toNat (x := b)]
  exact h b.toNat b.toNat_lt

theorem and_0x80_iff (b : UInt8) : b &&& 0x80 = 0 ↔ b < 0x80 :=
  forall_byte (P := fun b => b &&& 0x80 = 0 ↔ b < 0x80) (by decide +kernel) b

theorem and_0xC0_iff (b : UInt8) : b &&& 0xC0 = 0x80 ↔ 0x80 ≤ b ∧ b < 0xC0 :=
  forall_byte (P := fun b => b &&& 0xC0 = 0x80 ↔ 0x80 ≤ b ∧ b < 0xC0) (by decide +kernel) b

theorem and_0xE0_iff (b : UInt8) : b &&& 0xE0 = 0xC0 ↔ 0xC0 ≤ b ∧ b < 0xE0 :=
  forall_byte (P := fun b => b &&& 0xE0 = 0xC0 ↔ 0xC0 ≤ b ∧ b < 0xE0) (by decide +kernel) b

theorem tokenBase?_eq (value : Nat) :
    tokenBase? value = (Compressed.tokenTable? value).map fun t => t.number <<< 24 := by
  have hmod : value &&& 0x3 = value % 4 := Nat.and_two_pow_sub_one_eq_mod value 2
  unfold tokenBase? Compressed.tokenTable?
  rw [hmod]
  have : value % 4 < 4 := Nat.mod_lt _ (by decide)
  match value % 4, this with
  | 0, _ | 1, _ | 2, _ | 3, _ => rfl

/-- A compressed integer byte by byte. -/
def uintByNext : Decoder Nat := do
  let b0 ← Decoder.next
  if b0 < 0x80 then
    return b0.toNat
  if b0 < 0xC0 then
    let b1 ← Decoder.next
    return b0.toNat % 0x40 * 256 + b1.toNat
  if b0 < 0xE0 then
    let b1 ← Decoder.next
    let b2 ← Decoder.next
    let b3 ← Decoder.next
    return ((b0.toNat % 0x20 * 256 + b1.toNat) * 256 + b2.toNat) * 256 + b3.toNat
  Decoder.malformed (.badCompressedInteger b0.toNat)

theorem uintByNext_eq : uintByNext = Compressed.uint := by
  funext bytes
  cases bytes with
  | nil => rfl
  | cons b0 rest =>
      unfold uintByNext
      simp only [bind, EStateM.bind, Decoder.next, Compressed.uint]
      split
      · rfl
      · split
        · cases rest <;> rfl
        · split
          · rcases rest with _ | ⟨b1, _ | ⟨b2, _ | ⟨b3, rest⟩⟩⟩ <;> rfl
          · rfl

theorem toNat_and_eq_mod (b : UInt8) :
    b.toNat &&& 0x3F = b.toNat % 0x40 ∧ b.toNat &&& 0x1F = b.toNat % 0x20 :=
  ⟨Nat.and_two_pow_sub_one_eq_mod _ 6, Nat.and_two_pow_sub_one_eq_mod _ 5⟩

/-- Eight bits more are a factor of 256. -/
theorem shiftLeft_or_byte (a : Nat) (b : UInt8) : a <<< 8 ||| b.toNat = a * 256 + b.toNat := by
  rw [← Nat.shiftLeft_add_eq_or_of_lt b.toNat_lt, Nat.shiftLeft_eq]

theorem shiftLeft_or_bytes (a : Nat) (b1 b2 b3 : UInt8) :
    a <<< 24 ||| b1.toNat <<< 16 ||| b2.toNat <<< 8 ||| b3.toNat =
      ((a * 256 + b1.toNat) * 256 + b2.toNat) * 256 + b3.toNat := by
  rw [← shiftLeft_or_byte, ← shiftLeft_or_byte, ← shiftLeft_or_byte]
  simp only [Nat.shiftLeft_or_distrib, ← Nat.shiftLeft_add]

/-- A compressed integer has at most 29 bits. -/
theorem lt_of_uint {n : Nat} (h : Compressed.uint bytes = .ok n rest) : n < 0x20000000 := by
  obtain ⟨_, -, hn | hn | hn⟩ := Compressed.written_of_uint h <;> omega

/-- A compressed token as a compressed integer and what is made of it. -/
theorem token_eq_uint_bind : Compressed.token = (do
    let value ← Compressed.uint
    match Compressed.tokenTable? value with
    | some t => return ⟨(t.number <<< 24) + value / 4⟩
    | none => Decoder.malformed (.badCompressedToken value)) := by
  funext bytes
  simp only [Compressed.token, bind, EStateM.bind]
  cases Compressed.uint bytes with
  | ok value rest =>
      simp only
      cases Compressed.tokenTable? value <;> rfl
  | error => rfl

/-! ### Repetition -/

theorem timesOnto_simulates {r : Parse α} {d : Decoder α} (h : Simulates data depth marks r d)
    (done : List α) (count : Nat) :
    Simulates data depth marks (timesOnto r done count) (Decoder.timesOnto d done count) := by
  induction count generalizing done with
  | zero => exact .pure _
  | succ count ih => exact h.bind fun a _ => ih (a :: done)

theorem skipTimes_simulates {r : Parse α} {d : Decoder α} (h : Simulates data depth marks r d)
    (count : Nat) :
    Simulates data depth marks (skipTimes r count) (Decoder.skipTimes d count) := by
  induction count with
  | zero => exact .pure _
  | succ count ih => exact h.bind fun _ _ => ih

/-- A modifier is read as its token and the modifiers behind it. -/
theorem modifiersOnto_eq_bind {b : UInt8} (hb : isModifier b = true) (done : List Token)
    (tail : List UInt8) :
    Signature.modifiersOnto done (b :: tail) =
      (Compressed.token >>= fun t => Signature.modifiersOnto (t :: done)) tail := by
  rw [Signature.modifiersOnto, if_pos hb]
  simp only [bind, EStateM.bind]
  split <;> rename_i ht <;> rw [ht]

theorem modifiersOnto_of_not {b : UInt8} (hb : isModifier b = false) (done : List Token)
    (tail : List UInt8) :
    Signature.modifiersOnto done (b :: tail) = .ok done.reverse (b :: tail) := by
  rw [Signature.modifiersOnto, if_neg (by simp [hb])]

theorem isModifier_iff (b : UInt8) :
    isModifier b = true ↔ ¬ (b ≠ optionalModifier ∧ b ≠ requiredModifier) := by
  rw [isModifier, Bool.or_eq_true, beq_iff_eq, beq_iff_eq]
  by_cases h : b = requiredModifier <;> simp [h]

/-! ### The parts that do not nest -/

section Parts

variable (hdata : Addressable data)
include hdata

theorem readByte_simulates : Simulates data depth marks (readByte data) Decoder.next := by
  constructor
  intro p bytes hat hdepth _
  cases bytes with
  | nil =>
      rw [hat.readByte_nil hdata]
      exact .error hat hdepth
  | cons b rest =>
      rw [hat.readByte hdata]
      exact .ok hat.next hdepth (List.suffix_cons b rest)

/-- A byte that is there is skipped. -/
theorem At.advance {b : UInt8} (h : At data p (b :: rest)) :
    advance data p = .ok () { p with position := p.position + 1 } := by
  have hbound := hdata.lt_bound
  have hadd : Word.word64.add p.position 1 = .ok (p.position + 1) := by
    have := h.lt
    exact Word.add_word64 (by omega)
  simp only [Parser.advance, Stateful.get_bind_apply, if_neg (Nat.not_le.mpr h.lt), hadd]
  rfl

theorem mark_simulates (b : UInt8) :
    Simulates data depth marks (mark data b) (Signature.mark b) := by
  constructor
  intro p bytes hat hdepth _
  cases bytes with
  | nil =>
      rw [mark, Stateful.bind_of_eq_error hat.peek_nil]
      exact .error hat hdepth
  | cons c rest =>
      rw [mark, Stateful.bind_of_eq_ok hat.peek]
      by_cases hc : c = b
      · subst hc
        rw [Signature.mark_self, if_pos rfl, Stateful.bind_of_eq_ok (hat.advance hdata)]
        exact .ok hat.next hdepth (List.suffix_cons c rest)
      · rw [Signature.mark_of_ne hc, if_neg hc]
        exact .ok hat hdepth (List.suffix_refl _)

theorem compressedUint_simulates :
    Simulates data depth marks (compressedUint data) Compressed.uint := by
  rw [← uintByNext_eq]
  refine (readByte_simulates hdata).bind fun b0 _ => ?_
  obtain ⟨h6, h5⟩ := toNat_and_eq_mod b0
  have hb0 := b0.toNat_lt
  by_cases h1 : b0 < 0x80
  · simp only [if_pos h1, if_pos ((and_0x80_iff b0).mpr h1)]
    exact .pure b0.toNat
  simp only [if_neg h1, if_neg (mt (and_0x80_iff b0).mp h1)]
  by_cases h2 : b0 < 0xC0
  · simp only [if_pos h2, if_pos ((and_0xC0_iff b0).mpr ⟨UInt8.not_lt.mp h1, h2⟩)]
    refine (readByte_simulates hdata).bind fun b1 _ => ?_
    have hhigh : Word.word32.shiftLeft (b0.toNat % 0x40) 8 = .ok ((b0.toNat % 0x40) <<< 8) :=
      Word.shiftLeft_of_lt (by decide) (by rw [Nat.shiftLeft_eq, Word.bound_word32]; omega)
    rw [h6, hhigh, Stateful.liftM_ok, pure_bind, shiftLeft_or_byte]
    exact .pure _
  rw [UInt8.not_lt] at h2
  simp only [if_neg (UInt8.not_lt.mpr h2),
    if_neg (fun h => UInt8.not_lt.mpr h2 ((and_0xC0_iff b0).mp h).2)]
  by_cases h3 : b0 < 0xE0
  · simp only [if_pos h3, if_pos ((and_0xE0_iff b0).mpr ⟨h2, h3⟩)]
    refine (readByte_simulates hdata).bind fun b1 _ => ?_
    refine (readByte_simulates hdata).bind fun b2 _ => ?_
    refine (readByte_simulates hdata).bind fun b3 _ => ?_
    have hb1 := b1.toNat_lt
    have hb2 := b2.toNat_lt
    have hhigh : Word.word32.shiftLeft (b0.toNat % 0x20) 24 = .ok ((b0.toNat % 0x20) <<< 24) :=
      Word.shiftLeft_of_lt (by decide) (by rw [Nat.shiftLeft_eq, Word.bound_word32]; omega)
    have hupper : Word.word32.shiftLeft b1.toNat 16 = .ok (b1.toNat <<< 16) :=
      Word.shiftLeft_of_lt (by decide) (by rw [Nat.shiftLeft_eq, Word.bound_word32]; omega)
    have hlower : Word.word32.shiftLeft b2.toNat 8 = .ok (b2.toNat <<< 8) :=
      Word.shiftLeft_of_lt (by decide) (by rw [Nat.shiftLeft_eq, Word.bound_word32]; omega)
    simp only [h5, hhigh, hupper, hlower, Stateful.liftM_ok, pure_bind, shiftLeft_or_bytes]
    exact .pure _
  · simp only [if_neg h3, if_neg (mt (fun h => ((and_0xE0_iff b0).mp h).2) h3)]
    exact .throw _

theorem compressedToken_simulates :
    Simulates data depth marks (compressedToken data) Compressed.token := by
  rw [token_eq_uint_bind]
  refine (compressedUint_simulates hdata).bind fun value hvalue => ?_
  rw [tokenBase?_eq]
  cases ht : Compressed.tokenTable? value with
  | none => exact .throw _
  | some t =>
      obtain ⟨_, _, hread⟩ := hvalue
      have hlt := lt_of_uint hread
      have hrow : Word.word32.shiftRight value 2 = .ok (value / 4) := by
        rw [Word.shiftRight_of_lt (by decide), Nat.shiftRight_eq_div_pow]
      have hnumber : t.number < 45 := t.number_lt_count
      have hadd : Word.word32.add (t.number <<< 24) (value / 4) =
          .ok (t.number <<< 24 + value / 4) :=
        Word.add_of_lt (by rw [Word.bound_word32, Nat.shiftLeft_eq]; omega)
      simp only [Option.map_some, hrow, hadd, Stateful.liftM_ok, pure_bind]
      exact .pure _

/-- Enough rounds are granted if there are more of them than bytes. -/
theorem modifiersOnto_agrees (rounds : Nat) {p : Parser} {bytes : List UInt8} (done : List Token)
    (hrounds : bytes.length < rounds) (hat : At data p bytes) (hdepth : p.depth = depth) :
    Agree data depth bytes (modifiersOnto data done rounds p)
      (Signature.modifiersOnto done bytes) := by
  induction rounds generalizing p bytes done with
  | zero => exact absurd hrounds (Nat.not_lt_zero _)
  | succ rounds ih =>
      rw [modifiersOnto, Stateful.get_bind_apply]
      cases bytes with
      | nil =>
          rw [if_neg (Nat.not_lt.mpr hat.size_le), Signature.modifiersOnto]
          exact .ok hat hdepth (List.suffix_refl _)
      | cons b rest =>
          rw [if_pos hat.lt]
          rw [Stateful.bind_of_eq_ok hat.peek]
          by_cases hb : isModifier b = true
          · rw [if_neg ((isModifier_iff b).mp hb), modifiersOnto_eq_bind hb]
            change Agree _ _ _ ((advance data >>= fun _ => _) p) _
            rw [Stateful.bind_of_eq_ok (hat.advance hdata)]
            have htoken := (compressedToken_simulates hdata).agree hat.next hdepth (Nat.le_refl _)
            refine (htoken.bind fun {t q rest'} _ hat' hdepth' hsuffix => ?_).of_suffix
              (List.suffix_cons b rest)
            refine ih (t :: done) ?_ hat' hdepth'
            have := hsuffix.length_le
            rw [List.length_cons] at hrounds
            omega
          · rw [if_pos (Decidable.not_not.mp (mt (isModifier_iff b).mpr hb)),
              modifiersOnto_of_not (Bool.eq_false_iff.mpr hb)]
            exact .ok hat hdepth (List.suffix_refl _)

theorem modifiers_simulates :
    Simulates data depth marks (modifiers data) Signature.modifiers := by
  constructor
  intro p bytes hat hdepth _
  exact modifiersOnto_agrees hdata _ [] (Nat.lt_succ_of_le hat.length_le) hat hdepth

variable {r : Parse τ} {d : Decoder τ}

theorem param_simulates (h : Simulates data depth marks r d) :
    Simulates data depth marks (param data r) (Signature.param d) :=
  (modifiers_simulates hdata).bind fun _ _ => (mark_simulates hdata _).bind fun _ _ => h.map _

theorem paramsOnto_simulates (h : Simulates data depth marks r d) (count : Nat) (past : Bool)
    (fixed further : List (ParamSig τ)) :
    Simulates data depth marks (paramsOnto data r count past fixed further)
      (Signature.paramsOnto d count past fixed further) := by
  induction count generalizing past fixed further with
  | zero => exact .pure _
  | succ count ih =>
      refine (mark_simulates hdata _).bind fun marked _ => ?_
      refine (param_simulates hdata h).bind fun x _ => ?_
      cases past || marked with
      | true => exact ih _ _ _
      | false => exact ih _ _ _

theorem genericCount_simulates (convention : UInt8) :
    Simulates data depth marks (genericCount data convention)
      (Signature.genericCount convention) := by
  unfold genericCount Signature.genericCount
  split
  · exact compressedUint_simulates hdata
  · exact .pure 0

theorem methodOf_simulates (h : Simulates data depth marks r d) :
    Simulates data depth marks (methodOf data r) (Signature.method d) := by
  refine (readByte_simulates hdata).bind fun convention _ => ?_
  refine (genericCount_simulates hdata convention).bind fun genericCount _ => ?_
  refine (compressedUint_simulates hdata).bind fun count _ => ?_
  refine (param_simulates hdata h).bind fun ret _ => ?_
  exact (paramsOnto_simulates hdata h _ _ _ _).map _

end Parts

end AliasStubs.Machine.Parser
