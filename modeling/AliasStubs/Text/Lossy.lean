/-!
# Lossy reading of UTF-8

Bytes that are not valid UTF-8 still have a text: every maximal prefix of an encoded character
that the following byte does not continue becomes one replacement character, and reading goes on
at that byte.

## Main definitions

* `Lossy.decode` : the text of any bytes.
* `Lossy.Pending` : an encoded character of which some bytes are still missing.
-/

namespace AliasStubs.Lossy

/-- An encoded character of which some bytes are still missing. -/
structure Pending where
  /-- The bits read so far. -/
  bits : Nat
  /-- How many bytes are missing after the next one. -/
  after : Nat
  /-- The least byte that may come next. -/
  low : UInt8
  /-- The greatest byte that may come next. -/
  high : UInt8

/-- What a byte at the start of a character means. -/
inductive Lead
  /-- A character of one byte. -/
  | whole (c : Char)
  /-- The first of several bytes. -/
  | first (p : Pending)
  /-- A byte that starts no character. -/
  | invalid

/-- Classifies the first byte of a character. The range of the second byte excludes overlong
forms, surrogates and numbers past the last code point. -/
def lead (b : UInt8) : Lead :=
  if b < 0x80 then .whole (Char.ofNat b.toNat)
  else if b < 0xC2 then .invalid
  else if b < 0xE0 then .first ⟨b.toNat % 32, 0, 0x80, 0xBF⟩
  else if b < 0xF0 then
    .first ⟨b.toNat % 16, 1, if b = 0xE0 then 0xA0 else 0x80, if b = 0xED then 0x9F else 0xBF⟩
  else if b < 0xF5 then
    .first ⟨b.toNat % 8, 2, if b = 0xF0 then 0x90 else 0x80, if b = 0xF4 then 0x8F else 0xBF⟩
  else .invalid

/-- The replacement for bytes that encode no character. -/
def replacement : Char := '\uFFFD'

/-- The characters of `bytes`, continuing the character `pending` if there is one. -/
def chars : (pending : Option Pending) → (bytes : List UInt8) → List Char
  | none, [] => []
  | some _, [] => [replacement]
  | none, b :: rest =>
    match lead b with
    | .whole c => c :: chars none rest
    | .first p => chars (some p) rest
    | .invalid => replacement :: chars none rest
  | some p, b :: rest =>
    if p.low ≤ b ∧ b ≤ p.high then
      let bits := p.bits * 64 + b.toNat % 64
      match p.after with
      | 0 => Char.ofNat bits :: chars none rest
      | after + 1 => chars (some ⟨bits, after, 0x80, 0xBF⟩) rest
    else
      match lead b with
      | .whole c => replacement :: c :: chars none rest
      | .first q => replacement :: chars (some q) rest
      | .invalid => replacement :: replacement :: chars none rest

/-- The text of `data`, with a replacement character for each part that encodes none. -/
def decode (data : ByteArray) : String :=
  String.ofList (chars none data.data.toList)

end AliasStubs.Lossy
