import AliasStubs.Failure

/-!
# Compressed integers and tokens

Blobs are read from the front: a `Decoder` carries the bytes that are left, also when it fails.
Integers take one, two or four bytes, told apart by the high bits of the first one; a token is
such an integer whose two low bits select a table of types.

## Main definitions

* `Decoder` : a computation that consumes a list of bytes from the front.
* `Decoder.next`, `Decoder.peek` : the next byte, consumed or not.
* `Compressed.uint` and `Compressed.token` : the two compressed forms.
* `Decoder.times`, `Decoder.skipTimes` : counted repetition.
-/

namespace AliasStubs

/-- A computation that consumes a list of bytes from the front. What is left is kept when the
computation fails. -/
abbrev Decoder := EStateM Failure (List UInt8)

namespace Decoder

variable {α : Type}

/-- Stops because the data are malformed. -/
def malformed (d : Defect) : Decoder α :=
  throw (.malformed d)

/-- Consumes one byte. -/
def next : Decoder UInt8
  | [] => .error .outOfBounds []
  | b :: rest => .ok b rest

/-- The next byte, which stays in place. -/
def peek : Decoder UInt8
  | [] => .error .outOfBounds []
  | b :: rest => .ok b (b :: rest)

/-- Runs `p` as often as `count` says and puts the results behind those in `done`, which holds
the earlier ones in reverse. -/
def timesOnto (p : Decoder α) (done : List α) : (count : Nat) → Decoder (List α)
  | 0 => pure done.reverse
  | count + 1 => do
    let a ← p
    timesOnto p (a :: done) count

/-- Runs `p` as often as `count` says and lists the results. -/
def times (count : Nat) (p : Decoder α) : Decoder (List α) :=
  timesOnto p [] count

/-- Runs `p` as often as `count` says and drops the results. -/
def skipTimes (p : Decoder α) : (count : Nat) → Decoder Unit
  | 0 => pure ()
  | count + 1 => do
    let _ ← p
    skipTimes p count

end Decoder

namespace Compressed

open Decoder

/-- Reads a compressed integer: `0xxxxxxx` is one byte, `10xxxxxx` the first of two and `110xxxxx`
the first of four, the most significant byte first. -/
def uint : Decoder Nat
  | [] => .error .outOfBounds []
  | b0 :: rest =>
    if b0 < 0x80 then
      .ok b0.toNat rest
    else if b0 < 0xC0 then
      match rest with
      | b1 :: rest => .ok (b0.toNat % 0x40 * 256 + b1.toNat) rest
      | [] => .error .outOfBounds []
    else if b0 < 0xE0 then
      match rest with
      | b1 :: b2 :: b3 :: rest =>
        .ok (((b0.toNat % 0x20 * 256 + b1.toNat) * 256 + b2.toNat) * 256 + b3.toNat) rest
      | _ => .error .outOfBounds []
    else
      .error (.malformed (.badCompressedInteger b0.toNat)) rest

/-- The table that the two low bits of a compressed token select. -/
def tokenTable? (value : Nat) : Option TableId :=
  match value % 4 with
  | 0 => some .typeDef
  | 1 => some .typeRef
  | 2 => some .typeSpec
  | _ => none

/-- Reads a compressed token. The row is added to the table's number, so a row that does not fit
into 24 bits carries into it. -/
def token : Decoder Token := fun bytes =>
  match uint bytes with
  | .ok value rest =>
    match tokenTable? value with
    | some t => .ok ⟨(t.number <<< 24) + value / 4⟩ rest
    | none => .error (.malformed (.badCompressedToken value)) rest
  | .error e rest => .error e rest

/-- Reading a compressed integer leaves less than there was. -/
theorem length_of_uint {bytes rest : List UInt8} {n : Nat} (h : uint bytes = .ok n rest) :
    rest.length < bytes.length := by
  unfold uint at h
  split at h
  · cases h
  · split at h
    · cases h
      exact Nat.lt_succ_self _
    · split at h
      · split at h <;> cases h
        simp only [List.length_cons]
        omega
      · split at h
        · split at h <;> cases h
          simp only [List.length_cons]
          omega
        · cases h

/-- Reading a compressed token leaves less than there was. -/
theorem length_of_token {bytes rest : List UInt8} {t : Token} (h : token bytes = .ok t rest) :
    rest.length < bytes.length := by
  unfold token at h
  split at h
  · rename_i value rest' hu
    split at h <;> cases h
    exact length_of_uint hu
  · cases h

end Compressed

end AliasStubs
