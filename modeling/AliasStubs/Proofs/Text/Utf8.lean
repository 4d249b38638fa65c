import AliasStubs.Text.Order
import Mathlib.Tactic.ByContra

/-!
# The bytes of texts

A text is stored as the bytes of its characters. No byte of it is zero unless it has the character
zero. Texts are in the order of their bytes: a character of more bytes starts with a greater byte,
and among characters of as many bytes the first byte that differs decides.

## Main definitions

* `Text.bytes` : the bytes of a text in UTF-8.
* `Text.ZeroFree` : the texts that a zero byte can end.
* `Text.Encodes` : the bytes of a code point.

## Main results

* `Text.zeroFree_iff` : the texts that a zero byte can end are those without one.
* `Text.bytes_lt_bytes_iff` : the order of texts is the order of their bytes.
-/

namespace AliasStubs.Text

/-- The bytes of a text. -/
def bytes (s : String) : List UInt8 :=
  s.toUTF8.data.toList

/-- A text without the character zero. -/
def ZeroFree (s : String) : Prop :=
  '\x00' ∉ s.toList

instance : DecidablePred ZeroFree :=
  fun s => inferInstanceAs (Decidable ('\x00' ∉ s.toList))

variable {s t : String} {c : Char} {v w : Nat} {p q xs ys : List UInt8}

theorem bytes_eq_flatMap (s : String) : bytes s = s.toList.flatMap String.utf8EncodeChar := by
  have hlist : s.toUTF8 = s.toList.utf8Encode := by
    rw [String.toUTF8_eq_toByteArray, String.utf8Encode_toList]
  rw [bytes, hlist, List.utf8Encode, List.toList_data_toByteArray]

@[simp] theorem bytes_append (s t : String) : bytes (s ++ t) = bytes s ++ bytes t := by
  rw [bytes_eq_flatMap, bytes_eq_flatMap, bytes_eq_flatMap, String.toList_append,
    List.flatMap_append]

@[simp] theorem length_bytes (s : String) : (bytes s).length = s.utf8ByteSize :=
  rfl

/-! ### The bytes of a character -/

/-- The bytes of a code point, six bits in each one behind the first. -/
inductive Encodes : Nat → List UInt8 → Prop
  | one {v : Nat} : v < 0x80 → Encodes v [.ofNat v]
  | two {v : Nat} : 0x80 ≤ v → v < 0x800 →
      Encodes v [.ofNat (v / 0x40 + 0xC0), .ofNat (v % 0x40 + 0x80)]
  | three {v : Nat} : 0x800 ≤ v → v < 0x10000 →
      Encodes v [.ofNat (v / 0x1000 + 0xE0), .ofNat (v / 0x40 % 0x40 + 0x80),
        .ofNat (v % 0x40 + 0x80)]
  | four {v : Nat} : 0x10000 ≤ v → v < 0x110000 →
      Encodes v [.ofNat (v / 0x40000 + 0xF0), .ofNat (v / 0x1000 % 0x40 + 0x80),
        .ofNat (v / 0x40 % 0x40 + 0x80), .ofNat (v % 0x40 + 0x80)]

theorem toNat_lt_limit (c : Char) : c.toNat < 0x110000 := by
  rcases c.valid with h | ⟨-, h⟩
  · exact Nat.lt_trans h (by decide)
  · exact h

/-- A character is stored as the bytes of its code point. -/
theorem encodes_utf8EncodeChar (c : Char) : Encodes c.toNat (String.utf8EncodeChar c) := by
  have hlimit : c.val.toNat < 0x110000 := toNat_lt_limit c
  change Encodes c.val.toNat (String.utf8EncodeChar c)
  simp only [String.utf8EncodeChar]
  generalize c.val.toNat = v at hlimit
  by_cases h1 : v ≤ 127
  · rw [if_pos h1]
    exact .one (Nat.lt_succ_of_le h1)
  rw [if_neg h1]
  by_cases h2 : v ≤ 2047
  · have hlead : v / 64 % 32 = v / 0x40 := by omega
    rw [if_pos h2, hlead]
    exact .two (Nat.lt_of_not_le h1) (Nat.lt_succ_of_le h2)
  rw [if_neg h2]
  by_cases h3 : v ≤ 65535
  · have hlead : v / 4096 % 16 = v / 0x1000 := by omega
    rw [if_pos h3, hlead]
    exact .three (Nat.lt_of_not_le h2) (Nat.lt_succ_of_le h3)
  · have hlead : v / 262144 % 8 = v / 0x40000 := by omega
    rw [if_neg h3, hlead]
    exact .four (Nat.lt_of_not_le h3) hlimit

/-! ### The byte zero -/

theorem zero_eq_ofNat_iff : (0 : UInt8) = .ofNat v ↔ v % 0x100 = 0 := by
  rw [← UInt8.toNat_inj, UInt8.toNat_ofNat']
  exact eq_comm

/-- Only the code point zero has a zero byte. -/
theorem Encodes.zero_mem_iff (h : Encodes v p) : 0 ∈ p ↔ v = 0 := by
  cases h <;> simp only [List.mem_cons, List.not_mem_nil, or_false, zero_eq_ofNat_iff] <;> omega

theorem zero_mem_utf8EncodeChar_iff : 0 ∈ String.utf8EncodeChar c ↔ c = '\x00' := by
  rw [(encodes_utf8EncodeChar c).zero_mem_iff]
  exact ⟨fun h => Char.toNat_inj.mp h, fun h => h ▸ rfl⟩

/-- **The texts that a zero byte can end** are those without one. -/
theorem zeroFree_iff : ZeroFree s ↔ 0 ∉ bytes s := by
  rw [ZeroFree, bytes_eq_flatMap, List.mem_flatMap]
  refine not_congr ⟨fun h => ⟨_, h, zero_mem_utf8EncodeChar_iff.mpr rfl⟩, ?_⟩
  rintro ⟨c, hc, hzero⟩
  exact zero_mem_utf8EncodeChar_iff.mp hzero ▸ hc

/-! ### The order of bytes -/

/-- Bytes are ordered by the first ones that differ. -/
theorem ofNat_cons_lt_ofNat_cons (hw : w < 0x100) (h : v < w ∨ v = w ∧ xs < ys) :
    UInt8.ofNat v :: xs < UInt8.ofNat w :: ys := by
  rw [List.cons_lt_cons_iff]
  rcases h with h | ⟨rfl, h⟩
  · refine .inl (UInt8.lt_iff_toNat_lt.mpr ?_)
    rw [UInt8.toNat_ofNat_of_lt' hw, UInt8.toNat_ofNat_of_lt' (Nat.lt_trans h hw)]
    exact h
  · exact .inr ⟨rfl, h⟩

/-- Where the bits before them agree, the last six bits decide. -/
theorem last_lt_last (hlead : v / 0x40 = w / 0x40) (hlt : v < w) :
    UInt8.ofNat (v % 0x40 + 0x80) :: xs < UInt8.ofNat (w % 0x40 + 0x80) :: ys :=
  ofNat_cons_lt_ofNat_cons (by omega) (.inl (by omega))

/-- Where the bits before them agree, the last twelve bits decide. -/
theorem last_two_lt_last_two (hlead : v / 0x1000 = w / 0x1000) (hlt : v < w) :
    UInt8.ofNat (v / 0x40 % 0x40 + 0x80) :: UInt8.ofNat (v % 0x40 + 0x80) :: xs <
      UInt8.ofNat (w / 0x40 % 0x40 + 0x80) :: UInt8.ofNat (w % 0x40 + 0x80) :: ys := by
  refine ofNat_cons_lt_ofNat_cons (by omega) ?_
  by_cases hsame : v / 0x40 = w / 0x40
  · exact .inr ⟨by rw [hsame], last_lt_last hsame hlt⟩
  · exact .inl (by omega)

/-- **The lesser code point has the lesser bytes**, whatever stands behind them. -/
theorem Encodes.append_lt_append (hp : Encodes v p) (hq : Encodes w q) (hlt : v < w) :
    p ++ xs < q ++ ys := by
  -- A form with fewer bytes has the lesser first byte.
  cases hp with
  | one hv =>
      cases hq with
      | one _ => exact ofNat_cons_lt_ofNat_cons (by omega) (.inl hlt)
      | two _ _ | three _ _ | four _ _ =>
          exact ofNat_cons_lt_ofNat_cons (by omega) (.inl (by omega))
  | two hlow _ =>
      cases hq with
      | one _ => omega
      | two _ _ =>
          refine ofNat_cons_lt_ofNat_cons (by omega) ?_
          by_cases hsame : v / 0x40 = w / 0x40
          · exact .inr ⟨by rw [hsame], last_lt_last hsame hlt⟩
          · exact .inl (by omega)
      | three _ _ | four _ _ => exact ofNat_cons_lt_ofNat_cons (by omega) (.inl (by omega))
  | three hlow _ =>
      cases hq with
      | one _ | two _ _ => omega
      | three _ _ =>
          refine ofNat_cons_lt_ofNat_cons (by omega) ?_
          by_cases hsame : v / 0x1000 = w / 0x1000
          · exact .inr ⟨by rw [hsame], last_two_lt_last_two hsame hlt⟩
          · exact .inl (by omega)
      | four _ _ => exact ofNat_cons_lt_ofNat_cons (by omega) (.inl (by omega))
  | four hlow _ =>
      cases hq with
      | one _ | two _ _ | three _ _ => omega
      | four _ _ =>
          refine ofNat_cons_lt_ofNat_cons (by omega) ?_
          by_cases hsame : v / 0x40000 = w / 0x40000
          · refine .inr ⟨by rw [hsame], ofNat_cons_lt_ofNat_cons (by omega) ?_⟩
            by_cases hnext : v / 0x1000 = w / 0x1000
            · exact .inr ⟨by rw [hnext], last_two_lt_last_two hnext hlt⟩
            · exact .inl (by omega)
          · exact .inl (by omega)

/-- No character is stored as no bytes. -/
theorem Encodes.ne_nil (h : Encodes v p) : p ≠ [] := by
  cases h <;> exact List.cons_ne_nil _ _

/-- Lists of characters are in the order of their bytes. -/
theorem flatMap_lt_flatMap {cs ds : List Char} (h : cs < ds) :
    cs.flatMap String.utf8EncodeChar < ds.flatMap String.utf8EncodeChar := by
  induction h with
  | @nil d ds =>
      obtain ⟨b, rest, hb⟩ := List.exists_cons_of_ne_nil (encodes_utf8EncodeChar d).ne_nil
      rw [List.flatMap_cons, hb]
      exact List.Lex.nil
  | @cons c cs ds _ ih =>
      rw [List.flatMap_cons, List.flatMap_cons]
      exact List.append_left_lt ih
  | rel hlt =>
      rw [List.flatMap_cons, List.flatMap_cons]
      exact (encodes_utf8EncodeChar _).append_lt_append (encodes_utf8EncodeChar _) hlt

theorem bytes_lt_bytes (h : s < t) : bytes s < bytes t := by
  rw [bytes_eq_flatMap, bytes_eq_flatMap]
  exact flatMap_lt_flatMap h

/-- **The order of texts is the order of their bytes.** -/
theorem bytes_lt_bytes_iff : bytes s < bytes t ↔ s < t := by
  refine ⟨fun h => ?_, bytes_lt_bytes⟩
  by_contra hlt
  have hle : t ≤ s := String.not_lt.mp hlt
  by_cases hge : s ≤ t
  · obtain rfl := String.le_antisymm hge hle
    exact List.lt_irrefl _ h
  · exact List.lt_asymm h (bytes_lt_bytes (String.not_le.mp hge))

end AliasStubs.Text
