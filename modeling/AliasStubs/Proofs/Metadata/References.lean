import AliasStubs.Proofs.Assembly.Names
import AliasStubs.Proofs.Metadata.Compressed

/-!
# References and their tokens

A reference to a row of one of several tables is stored as one number, whose low bits select the
table and whose other bits are the row. A token has room for 24 bits of the row below the number of
the table, and no reader asks whether the row fits: the row of a compressed token is added to the
number of the table, and that of a coded index is put over it bit by bit.

So a reference keeps its table and its row **exactly if the row fits**. Where it does not, the token
holds the low bits of the row, and the bits that are too many end up in the number of the table.

## Main definitions

* `CodedKind.Stores` : a number stores a reference to a row of a table.

## Main results

* `Token.denotes_iff_of_split` : a token with the low bits of a row denotes it exactly if it fits.
* `Compressed.token_eq_ok_iff`, `CodedIndex.decode_eq_ok_iff` : what is accepted.
* `CodedIndex.accepted_denotes_iff_fits` : **a reference is kept exactly if its row fits**.
-/

namespace AliasStubs

/-- The number `value` **stores** a reference to a row of a table: its low bits select the table,
and the others are the row. -/
def CodedKind.Stores (k : CodedKind) (value : Nat) (table : TableId) (row : Nat) : Prop :=
  k.slots[value % k.tagCount]? = some (some table) ∧ value / k.tagCount = row

/-! ### Tokens -/

namespace Token

/-- **A token that holds the low bits of a row denotes it exactly if there are no others.** The
others may go anywhere, as long as nothing changes where there are none. -/
theorem denotes_iff_of_split {t : Token} {table : TableId} {row : Nat}
    (htable : row < 2 ^ 24 → t.table = table.number) (hrow : t.row = row % 2 ^ 24) :
    t.Denotes table row ↔ row < 2 ^ 24 := by
  constructor
  · rintro ⟨-, h⟩
    have hlt : row % 2 ^ 24 < 2 ^ 24 := Nat.mod_lt _ (by decide)
    omega
  · intro h
    exact ⟨htable h, hrow.trans (Nat.mod_eq_of_lt h)⟩

end Token

/-! ### What is accepted -/

namespace CodedIndex

/-- A number is accepted exactly if it stores a reference. -/
theorem decode_eq_ok_iff {k : CodedKind} {value : Nat} {i : CodedIndex} :
    decode k value = .ok i ↔ k.Stores value i.table i.row := by
  rcases i with ⟨table, row⟩
  rw [decode, CodedKind.Stores]
  constructor
  · intro h
    split at h
    · rename_i hslot
      cases h
      exact ⟨hslot, rfl⟩
    · cases h
  · rintro ⟨hslot, rfl⟩
    simp only [hslot]

end CodedIndex

namespace Compressed

/-- The tags of compressed tokens are those of references to a type. -/
theorem tokenTable?_eq_some_iff {value : Nat} {table : TableId} :
    tokenTable? value = some table ↔
      CodedKind.typeDefOrRef.Stores value table (value / 4) := by
  have hcount : CodedKind.typeDefOrRef.tagCount = 4 := rfl
  have htag : value % 4 = 0 ∨ value % 4 = 1 ∨ value % 4 = 2 ∨ value % 4 = 3 := by omega
  rw [CodedKind.Stores, hcount, tokenTable?]
  rcases htag with htag | htag | htag | htag
  all_goals simp [htag, CodedKind.slots]

/-- A compressed token is accepted exactly if its number stores a reference to a type. The row is
added to the number of the table. -/
theorem token_eq_ok_iff {bytes rest : List UInt8} {t : Token} :
    token bytes = .ok t rest ↔ ∃ value table row, uint bytes = .ok value rest ∧
      CodedKind.typeDefOrRef.Stores value table row ∧
      t.value = table.number * 2 ^ 24 + row := by
  rcases t with ⟨number⟩
  rw [token]
  constructor
  · intro h
    split at h
    · rename_i value rest' huint
      split at h
      · rename_i table htable
        cases h
        refine ⟨value, table, value / 4, huint, tokenTable?_eq_some_iff.mp htable, ?_⟩
        rw [Nat.shiftLeft_eq]
      · cases h
    · cases h
  · rintro ⟨value, table, row, huint, hstores, hnumber⟩
    obtain rfl : value / 4 = row := hstores.2
    have htable := tokenTable?_eq_some_iff.mpr hstores
    have hnumber : table.number <<< 24 + value / 4 = number := by
      rw [Nat.shiftLeft_eq]
      exact hnumber.symm
    simp only [huint, htable, hnumber]

end Compressed

/-! ### What is kept -/

namespace CodedIndex

/-- **A reference is kept exactly if its row fits** into the 24 bits that a token has for it. Every
other reference is accepted as well: its token has the low bits of the row, and a table that the
high bits were added to, or put over bit by bit. -/
theorem accepted_denotes_iff_fits {bytes rest : List UInt8} {t : Token} {k : CodedKind}
    {value : Nat} {i : CodedIndex} :
    (Compressed.token bytes = .ok t rest ↔
      ∃ value table row, Compressed.uint bytes = .ok value rest ∧
        CodedKind.typeDefOrRef.Stores value table row ∧ (t.Denotes table row ↔ row < 2 ^ 24) ∧
        t.table = table.number + row / 2 ^ 24 ∧ t.row = row % 2 ^ 24) ∧
    (decode k value = .ok i ↔
      k.Stores value i.table i.row ∧ (i.token.Denotes i.table i.row ↔ i.row < 2 ^ 24) ∧
        i.token.table = i.table.number ||| i.row / 2 ^ 24 ∧ i.token.row = i.row % 2 ^ 24) := by
  constructor
  · rw [Compressed.token_eq_ok_iff]
    constructor
    · rintro ⟨value, table, row, huint, hstores, hvalue⟩
      have htable : t.table = table.number + row / 2 ^ 24 := by
        rw [t.table_eq_div]
        omega
      have hrow : t.row = row % 2 ^ 24 := by
        rw [t.row_eq_mod]
        omega
      refine ⟨value, table, row, huint, hstores, ?_, htable, hrow⟩
      exact Token.denotes_iff_of_split (fun h => by omega) hrow
    · rintro ⟨value, table, row, huint, hstores, -, htable, hrow⟩
      refine ⟨value, table, row, huint, hstores, ?_⟩
      rw [t.table_eq_div] at htable
      rw [t.row_eq_mod] at hrow
      omega
  · have htable : i.token.table = i.table.number ||| i.row / 2 ^ 24 := i.table.table_token i.row
    have hrow : i.token.row = i.row % 2 ^ 24 := i.table.row_token i.row
    have hkept : i.token.Denotes i.table i.row ↔ i.row < 2 ^ 24 := by
      refine Token.denotes_iff_of_split (fun h => ?_) hrow
      rw [htable, Nat.div_eq_of_lt h, Nat.or_zero]
    rw [decode_eq_ok_iff]
    exact ⟨fun h => ⟨h, hkept, htable, hrow⟩, fun h => h.1⟩

/-- A compressed reference to row `2 ^ 24 + 1` of the type references is read as the token of the
first type definition, and the token of a coded index to that row of the type definitions has the
table of pointers to fields. -/
theorem accepted_denotes_iff_fits_spills :
    (∃ t, Compressed.token [0xC4, 0x00, 0x00, 0x05] = .ok t [] ∧
      Compressed.uint [0xC4, 0x00, 0x00, 0x05] = .ok 0x4000005 [] ∧
      CodedKind.typeDefOrRef.Stores 0x4000005 .typeRef 0x1000001 ∧
      ¬ t.Denotes .typeRef 0x1000001 ∧ t.Denotes .typeDef 1) ∧
    ∃ i, decode .typeDefOrRef 0x4000004 = .ok i ∧ i.table = .typeDef ∧ i.row = 0x1000001 ∧
      ¬ i.token.Denotes i.table i.row ∧ i.token.Denotes .fieldPtr 1 := by
  refine ⟨⟨⟨0x02000001⟩, rfl, rfl, ⟨rfl, rfl⟩, ?_, rfl, rfl⟩,
    ⟨.typeDef, 0x1000001⟩, rfl, rfl, rfl, ?_, rfl, rfl⟩
  · rintro ⟨htable, -⟩
    exact absurd htable (by decide)
  · rintro ⟨htable, -⟩
    exact absurd htable (by decide)

end CodedIndex

end AliasStubs
