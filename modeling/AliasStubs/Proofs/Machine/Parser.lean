import AliasStubs.Proofs.Machine.Bytes
import AliasStubs.Proofs.Signature.Recognition

/-!
# A parser with nested calls

Signatures are read here as a machine reads them: at a position in the data, with a counter of the
levels taken so far, and by calls that nest. Every call of `Parser.type`, `Parser.typeInner` and
`Parser.method` takes one of the `calls` that are granted, and the machine stops as **exhausted**
where none is left. So the number of calls granted bounds how many activations of the three are ever
open at once.

The counter is raised and checked in `Parser.type` alone. The other two are entered without it, also
by `Parser.typeInner` itself, which calls itself behind a mark that is skipped.

## Main definitions

* `Parser` : where a parser stands; `Parse` a computation that moves it.
* `Parser.compressedUint`, `Parser.compressedToken`, `Parser.modifiers`, `Parser.paramsOnto` and
  others : the parts that do not nest.
* `Parser.type`, `Parser.typeInner`, `Parser.method` : the three that do.
-/

namespace AliasStubs.Machine

open Signature (maxDepth requiredModifier optionalModifier pinned byReference sentinel isModifier)

/-- Where a parser stands. -/
structure Parser where
  /-- The position of the next byte. -/
  position : Nat
  /-- The levels taken so far. -/
  depth : Nat

/-- A computation that moves a parser. -/
abbrev Parse := Stateful Parser

namespace Parser

/-- A parser at the start of its data. -/
def start : Parser :=
  ⟨0, 0⟩

variable {α τ : Type} (data : ByteArray)

/-! ### Bytes -/

/-- A computation that only moves the position. -/
def atPosition (r : Stateful Nat α) : Parse α := fun p =>
  match r p.position with
  | .ok a position => .ok a { p with position }
  | .error stop position => .error stop { p with position }

/-- Reads a byte. -/
def readByte : Parse UInt8 := do
  return UInt8.ofNat (← atPosition (uint data 1))

/-- The next byte, which stays in place. -/
def peek : Parse UInt8 := do
  let p ← get
  if data.size ≤ p.position then
    throw (.failure .outOfBounds)
  byteAt data p.position

/-- Skips a byte. -/
def advance : Parse Unit := do
  let p ← get
  if data.size ≤ p.position then
    throw (.failure .outOfBounds)
  let position ← Word.word64.add p.position 1
  set { p with position }

/-- Reads as many bytes as `length` says. -/
def readBytes (length : Nat) : Parse ByteArray := do
  let p ← get
  match Word.word64.add? p.position length with
  | none => throw (.failure .outOfBounds)
  | some stop =>
    if data.size < stop then
      throw (.failure .outOfBounds)
    let bytes ← slice data p.position stop
    set { p with position := stop }
    return bytes

/-! ### Compressed integers and tokens -/

/-- Reads a compressed integer. -/
def compressedUint : Parse Nat := do
  let first ← readByte data
  if first &&& 0x80 = 0 then
    return first.toNat
  if first &&& 0xC0 = 0x80 then
    let second ← readByte data
    let high ← Word.word32.shiftLeft (first.toNat &&& 0x3F) 8
    return high ||| second.toNat
  if first &&& 0xE0 = 0xC0 then
    let second ← readByte data
    let third ← readByte data
    let fourth ← readByte data
    let high ← Word.word32.shiftLeft (first.toNat &&& 0x1F) 24
    let upper ← Word.word32.shiftLeft second.toNat 16
    let lower ← Word.word32.shiftLeft third.toNat 8
    return high ||| upper ||| lower ||| fourth.toNat
  throw (.failure (.malformed (.badCompressedInteger first.toNat)))

/-- The number of the table that the two low bits of a compressed token select, in the place that it
has in a token. -/
def tokenBase? (value : Nat) : Option Nat :=
  match value &&& 0x3 with
  | 0 => some 0x02000000
  | 1 => some 0x01000000
  | 2 => some 0x1B000000
  | _ => none

/-- Reads a compressed token. -/
def compressedToken : Parse Token := do
  let value ← compressedUint data
  match tokenBase? value with
  | some base => do
    let row ← Word.word32.shiftRight value 2
    let value ← Word.word32.add base row
    return ⟨value⟩
  | none => throw (.failure (.malformed (.badCompressedToken value)))

/-! ### Repetition -/

/-- Runs `p` as often as `count` says and puts the results behind those in `done`, which holds the
earlier ones in reverse. -/
def timesOnto (p : Parse α) (done : List α) : (count : Nat) → Parse (List α)
  | 0 => pure done.reverse
  | count + 1 => do
    let a ← p
    timesOnto p (a :: done) count

/-- Runs `p` as often as `count` says and drops the results. -/
def skipTimes (p : Parse α) : (count : Nat) → Parse Unit
  | 0 => pure ()
  | count + 1 => do
    let _ ← p
    skipTimes p count

/-- Reads the custom modifiers that come next, in as many rounds as are granted, and puts their
tokens behind those in `done`, which holds the earlier ones in reverse. -/
def modifiersOnto (done : List Token) : (rounds : Nat) → Parse (List Token)
  | 0 => throw .exhausted
  | rounds + 1 => do
    let p ← get
    if p.position < data.size then
      let b ← peek data
      if b ≠ optionalModifier ∧ b ≠ requiredModifier then
        return done.reverse
      advance data
      let token ← compressedToken data
      modifiersOnto (token :: done) rounds
    else
      return done.reverse

/-- Reads the custom modifiers that come next. Every round but the last takes a byte. -/
def modifiers : Parse (List Token) :=
  modifiersOnto data [] (data.size + 1)

/-! ### Parameters and methods -/

/-- Consumes the next byte if it is the mark `b`, and says whether it was. -/
def mark (b : UInt8) : Parse Bool := do
  if (← peek data) = b then
    advance data
    return true
  else
    return false

/-- Reads a parameter or return value, given the parser of a type. -/
def param (type : Parse τ) : Parse (ParamSig τ) := do
  let modifiers ← modifiers data
  let byRef ← mark data byReference
  let type ← type
  return { modifiers, byRef, type }

/-- Reads as many parameters as `count` says. The lists hold the earlier ones in reverse, the fixed
ones and those behind a sentinel. -/
def paramsOnto (type : Parse τ) :
    (count : Nat) → (past : Bool) → (fixed further : List (ParamSig τ)) →
      Parse (List (ParamSig τ) × List (ParamSig τ))
  | 0, _, fixed, further => pure (fixed.reverse, further.reverse)
  | count + 1, past, fixed, further => do
    let marked ← mark data sentinel
    let p ← param data type
    if past || marked then
      paramsOnto type count true fixed (p :: further)
    else
      paramsOnto type count false (p :: fixed) further

/-- Reads the number of generic parameters, zero if the calling convention announces none. -/
def genericCount (convention : UInt8) : Parse Nat :=
  if convention &&& 0x10 ≠ 0 then compressedUint data else pure 0

/-- Reads a method, given the parser of a type. -/
def methodOf (type : Parse τ) : Parse (MethodSig τ) := do
  let convention ← readByte data
  let genericCount ← genericCount data convention
  let count ← compressedUint data
  let ret ← param data type
  let (params, varargs) ← paramsOnto data type count false [] []
  return {
    hasThis := convention &&& 0x20 != 0
    explicitThis := convention &&& 0x40 != 0
    vararg := convention &&& 0x0F == 0x05
    genericCount, ret, params, varargs }

/-! ### Types -/

/-- Runs a parser inside a level, which is given back behind it, also when it fails. -/
def leaving (r : Parse α) : Parse α := fun p =>
  match r p with
  | .ok a q =>
    match sub q.depth 1 with
    | .ok depth => .ok a { q with depth }
    | .error stop => .error stop q
  | .error (.failure e) q =>
    match sub q.depth 1 with
    | .ok depth => .error (.failure e) { q with depth }
    | .error stop => .error stop q
  | .error stop q => .error stop q

/-- Reads what a generic instance is over, given the parser of a type. The element code is looked at
before, so nothing but a defined type can come of it. -/
def genericBase (type : Parse TypeSig) : Parse (NominalKind × Token) := do
  let code ← peek data
  match NominalKind.ofCode? code with
  | none => throw (.failure (.malformed (.badGenericBase code.toNat)))
  | some _ => do
    match ← type with
    | .nominal kind definition => return (kind, definition)
    | _ => throw .fault

/-- Reads what follows the element code of a type that is built from others, given the parsers of a
type and of a method. -/
def constructed (type : Parse TypeSig) (method : Parse (MethodSig TypeSig)) (code : UInt8) :
    Parse TypeSig :=
  match code with
  | 0x0F => do
    let _ ← modifiers data
    return .pointer (← type)
  | 0x10 => return .byRef (← type)
  | 0x13 => return .typeParam (← compressedUint data)
  | 0x14 => do
    let element ← type
    let rank ← compressedUint data
    let sizes ← compressedUint data
    skipTimes (compressedUint data) sizes
    let lowerBounds ← compressedUint data
    skipTimes (compressedUint data) lowerBounds
    return .array element rank
  | 0x15 => do
    let (kind, definition) ← genericBase data type
    let count ← compressedUint data
    let arguments ← timesOnto type [] count
    return .generic kind definition arguments
  | 0x1B => return .method (← method)
  | 0x1D => do
    let _ ← modifiers data
    return .vector (← type)
  | 0x1E => return .methodParam (← compressedUint data)
  | _ => throw (.failure (.malformed (.badElementCode code.toNat)))

mutual

/-- Reads a type, a level deeper. -/
def type : (calls : Nat) → Parse TypeSig
  | 0 => throw .exhausted
  | calls + 1 => do
    let p ← get
    let depth ← Word.word64.add p.depth 1
    set { p with depth }
    if maxDepth ≤ depth then
      throw (.failure (.recursionLimit maxDepth))
    leaving (typeInner calls)

/-- Reads a type within the level that is open. Behind a mark it calls itself. -/
def typeInner : (calls : Nat) → Parse TypeSig
  | 0 => throw .exhausted
  | calls + 1 => do
    let code ← readByte data
    if code = pinned then
      typeInner calls
    else if isModifier code then
      let _ ← compressedToken data
      let _ ← modifiers data
      typeInner calls
    else
      match SimpleType.ofCode? code with
      | some t => return .simple t
      | none =>
        match NominalKind.ofCode? code with
        | some kind => return .nominal kind (← compressedToken data)
        | none => constructed data (type calls) (method calls) code

/-- Reads a method. -/
def method : (calls : Nat) → Parse (MethodSig TypeSig)
  | 0 => throw .exhausted
  | calls + 1 => methodOf data (type calls)

end

/-- Reads a type from the start of the data, within as many nested calls as are granted. -/
def readType (calls : Nat) : Checked TypeSig :=
  (type data calls).startingAt start

/-- Reads a method from the start of the data, within as many nested calls as are granted. -/
def readMethod (calls : Nat) : Checked (MethodSig TypeSig) :=
  (method data calls).startingAt start

end Parser

end AliasStubs.Machine
