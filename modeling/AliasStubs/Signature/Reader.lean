import AliasStubs.Metadata.Compressed
import AliasStubs.Signature.Basic

/-!
# Reading signatures

A type is read from its element code and what follows it. Custom modifiers and the mark of a pinned
value may stand before any type and are skipped. Types nest, and the reader takes a **budget** of
levels: a type that would need one level more than the budget is refused.

Several signatures can be read one after the other in a `Session`. A signature refused for nesting
too deeply costs the session one level of every later budget.

## Main definitions

* `Signature.type` : reads a type within a budget of levels.
* `Signature.method` : reads a method, given the reader of a type.
* `Signature.Session` : a sequence of reads over the same bytes.
* `Signature.readMethod`, `Signature.readType` : read one signature from the start of its bytes.
-/

namespace AliasStubs.Signature

open Decoder

/-- The level at which nesting is refused. -/
def maxDepth : Nat := 50

/-- The levels that a signature may use. -/
def budget : Nat := maxDepth - 1

/-! ### Marks -/

/-- A custom modifier that must be understood. -/
def requiredModifier : UInt8 := 0x1F

/-- A custom modifier that may be ignored. -/
def optionalModifier : UInt8 := 0x20

/-- The mark of a pinned value. -/
def pinned : UInt8 := 0x45

/-- The mark of a value passed by reference. -/
def byReference : UInt8 := 0x10

/-- The mark of the first argument after the fixed parameters. -/
def sentinel : UInt8 := 0x41

/-- Whether a byte starts a custom modifier. -/
def isModifier (b : UInt8) : Bool :=
  b == requiredModifier || b == optionalModifier

/-! ### What may stand before a type -/

/-- Reads the custom modifiers that come next and puts their tokens behind those in `done`, which
holds the earlier ones in reverse. -/
def modifiersOnto (done : List Token) : Decoder (List Token)
  | [] => .ok done.reverse []
  | b :: rest =>
    if isModifier b then
      match _h : Compressed.token rest with
      | .ok t rest' => modifiersOnto (t :: done) rest'
      | .error e rest' => .error e rest'
    else
      .ok done.reverse (b :: rest)
  termination_by bytes => bytes.length
  decreasing_by
    have := Compressed.length_of_token _h
    simp only [List.length_cons]
    omega

/-- Reads the custom modifiers that come next, which may be none. -/
def modifiers : Decoder (List Token) :=
  modifiersOnto []

/-- Skips the custom modifiers and marks of pinned values that come next. -/
def skipMarks : Decoder Unit
  | [] => .ok () []
  | b :: rest =>
    if b = pinned then
      skipMarks rest
    else if isModifier b then
      match _h : Compressed.token rest with
      | .ok _ rest' => skipMarks rest'
      | .error e rest' => .error e rest'
    else
      .ok () (b :: rest)
  termination_by bytes => bytes.length
  decreasing_by
    · exact Nat.lt_succ_self _
    · have := Compressed.length_of_token _h
      simp only [List.length_cons]
      omega

/-- Consumes the next byte if it is the mark `b`, and says whether it was. -/
def mark (b : UInt8) : Decoder Bool
  | [] => .error .outOfBounds []
  | c :: rest => if c = b then .ok true rest else .ok false (c :: rest)

/-! ### Methods -/

variable {τ : Type}

/-- Reads a parameter or return value: its modifiers, whether it is passed by reference, and its
type. -/
def param (type : Decoder τ) : Decoder (ParamSig τ) := do
  let modifiers ← modifiers
  let byRef ← mark byReference
  let type ← type
  return { modifiers, byRef, type }

/-- Reads as many parameters as `count` says, the first sentinel parting the fixed ones from the
further arguments. The lists hold the earlier ones in reverse. -/
def paramsOnto (type : Decoder τ) :
    (count : Nat) → (past : Bool) → (fixed further : List (ParamSig τ)) →
      Decoder (List (ParamSig τ) × List (ParamSig τ))
  | 0, _, fixed, further => pure (fixed.reverse, further.reverse)
  | count + 1, past, fixed, further => do
    let marked ← mark sentinel
    let p ← param type
    if past || marked then
      paramsOnto type count true fixed (p :: further)
    else
      paramsOnto type count false (p :: fixed) further

/-- Reads the number of generic parameters, zero if the calling convention announces none. -/
def genericCount (convention : UInt8) : Decoder Nat :=
  if convention &&& 0x10 ≠ 0 then Compressed.uint else pure 0

/-- Reads a method, given the reader of a type. The first byte holds the calling convention; one of
its bits announces a count of generic parameters. -/
def method (type : Decoder τ) : Decoder (MethodSig τ) := do
  let convention ← next
  let genericCount ← genericCount convention
  let count ← Compressed.uint
  let ret ← param type
  let (params, varargs) ← paramsOnto type count false [] []
  return {
    hasThis := convention &&& 0x20 != 0
    explicitThis := convention &&& 0x40 != 0
    vararg := convention &&& 0x0F == 0x05
    genericCount, ret, params, varargs }

/-! ### Types -/

/-- Refuses to nest deeper. -/
def refuse {α : Type} : Decoder α :=
  throw (.recursionLimit maxDepth)

/-- Reads the definition that a generic instance is over, which takes one of `levels`. Its element
code is checked before the level is taken. -/
def genericBase (levels : Nat) : Decoder (NominalKind × Token) := do
  let code ← peek
  match NominalKind.ofCode? code with
  | none => malformed (.badGenericBase code.toNat)
  | some kind =>
    match levels with
    | 0 => refuse
    | _ + 1 => do
      let _ ← next
      let definition ← Compressed.token
      return (kind, definition)

/-- Reads what follows the element code of a type that is built from others, given the `levels`
that are left and the reader of a type within them. The sizes and lower bounds of an array do not
belong to its type. -/
def constructed (levels : Nat) (type : Decoder TypeSig) (code : UInt8) : Decoder TypeSig :=
  match code with
  | 0x0F => do
    let _ ← modifiers
    return .pointer (← type)
  | 0x10 => return .byRef (← type)
  | 0x13 => return .typeParam (← Compressed.uint)
  | 0x14 => do
    let element ← type
    let rank ← Compressed.uint
    let sizes ← Compressed.uint
    skipTimes Compressed.uint sizes
    let lowerBounds ← Compressed.uint
    skipTimes Compressed.uint lowerBounds
    return .array element rank
  | 0x15 => do
    let (kind, definition) ← genericBase levels
    let count ← Compressed.uint
    let arguments ← times count type
    return .generic kind definition arguments
  | 0x1B => return .method (← method type)
  | 0x1D => do
    let _ ← modifiers
    return .vector (← type)
  | 0x1E => return .methodParam (← Compressed.uint)
  | _ => malformed (.badElementCode code.toNat)

/-- Reads a type that nests at most as deep as `levels` says. -/
def type : (levels : Nat) → Decoder TypeSig
  | 0 => refuse
  | levels + 1 => do
    skipMarks
    let code ← next
    match SimpleType.ofCode? code with
    | some t => return .simple t
    | none =>
      match NominalKind.ofCode? code with
      | some kind => return .nominal kind (← Compressed.token)
      | none => constructed levels (type levels) code

/-! ### Sessions -/

/-- A sequence of reads over the same bytes. -/
structure Session where
  /-- The bytes that are left. -/
  rest : List UInt8
  /-- How many signatures have been refused for nesting too deeply. -/
  refused : Nat

namespace Session

/-- A session at the start of its bytes. -/
def start (bytes : ByteArray) : Session :=
  ⟨bytes.data.toList, 0⟩

/-- Reads one signature within the levels that the refused ones have left. Reading goes on where it
stopped, also after a failure. -/
def read {α : Type} (s : Session) (p : (levels : Nat) → Decoder α) : Except Failure α × Session :=
  match p (budget - s.refused) s.rest with
  | .ok a rest => (.ok a, { s with rest })
  | .error (.recursionLimit n) rest =>
    (.error (.recursionLimit n), { rest, refused := s.refused + 1 })
  | .error e rest => (.error e, { s with rest })

/-- Reads the signature of a method. -/
def readMethod (s : Session) : Except Failure (MethodSig TypeSig) × Session :=
  s.read fun levels => method (type levels)

/-- Reads the signature of a type. -/
def readType (s : Session) : Except Failure TypeSig × Session :=
  s.read type

end Session

/-- Reads the signature of a method from the start of `bytes`. -/
def readMethod (bytes : ByteArray) : Except Failure (MethodSig TypeSig) :=
  (Session.start bytes).readMethod.1

/-- Reads the signature of a type from the start of `bytes`. -/
def readType (bytes : ByteArray) : Except Failure TypeSig :=
  (Session.start bytes).readType.1

end AliasStubs.Signature
