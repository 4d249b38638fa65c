import AliasStubs.Proofs.Signature.Recognition

/-!
# Signatures as plain trees

By its form, the signature of a generic instance is over a class or value type. A **plain tree** does
not say so: what an instance is over is a tree like any other, and a node may be of no known kind at
all. Plain trees are read like signatures, but of what an instance is over only the first byte is
looked at, and then it is read like any other type.

This one byte is enough: the trees that are read are the trees of the signatures that are read, and
reading fails where it failed before.

## Main definitions

* `SignatureTree` : plain trees, and `TypeSig.tree` the tree of a signature.
* `SignatureTree.reader` : reads a plain tree.

## Main results

* `SignatureTree.base_eq` : **a generic instance is over a class or value type**.
* `SignatureTree.reader_eq` : **reading a plain tree is reading a signature**.
-/

namespace AliasStubs

/-- The signature of a type as a plain tree. -/
inductive SignatureTree
  /-- A node of no known kind. -/
  | unknown
  | simple (type : SimpleType)
  | pointer (target : SignatureTree)
  | byRef (target : SignatureTree)
  | nominal (kind : NominalKind) (token : Token)
  | typeParam (index : Nat)
  | methodParam (index : Nat)
  | vector (element : SignatureTree)
  | array (element : SignatureTree) (rank : Nat)
  /-- An instance of whatever `base` is. -/
  | generic (base : SignatureTree) (arguments : List SignatureTree)
  | method (signature : MethodSig SignatureTree)

/-- Changes the type of a parameter. -/
def ParamSig.map {τ υ : Type} (f : τ → υ) (p : ParamSig τ) : ParamSig υ :=
  ⟨p.modifiers, p.byRef, f p.type⟩

/-- Changes the types of a method. -/
def MethodSig.map {τ υ : Type} (f : τ → υ) (m : MethodSig τ) : MethodSig υ :=
  ⟨m.hasThis, m.explicitThis, m.vararg, m.genericCount, m.ret.map f, m.params.map (·.map f),
    m.varargs.map (·.map f)⟩

/-- The types of a method are changed one by one. -/
theorem MethodSig.types_map {τ υ : Type} (f : τ → υ) (m : MethodSig τ) :
    (m.map f).types = m.types.map f := by
  simp only [MethodSig.types, MethodSig.map, ParamSig.map, List.map_cons, List.map_append,
    List.map_map, Function.comp_def]

/-! ### The tree of a signature -/

mutual

/-- The plain tree of a signature. -/
def TypeSig.tree : TypeSig → SignatureTree
  | .simple t => .simple t
  | .nominal kind t => .nominal kind t
  | .typeParam i => .typeParam i
  | .methodParam i => .methodParam i
  | .pointer target => .pointer target.tree
  | .byRef target => .byRef target.tree
  | .vector element => .vector element.tree
  | .array element rank => .array element.tree rank
  | .generic kind definition arguments => .generic (.nominal kind definition) (TypeSig.trees arguments)
  | .method signature => .method signature.tree

/-- The plain trees of several signatures. -/
def TypeSig.trees : List TypeSig → List SignatureTree
  | [] => []
  | t :: ts => t.tree :: TypeSig.trees ts

/-- A method with the plain trees of its types. -/
def MethodSig.tree : MethodSig TypeSig → MethodSig SignatureTree
  | ⟨hasThis, explicitThis, vararg, genericCount, ret, params, varargs⟩ =>
    ⟨hasThis, explicitThis, vararg, genericCount, ret.tree, ParamSig.trees params,
      ParamSig.trees varargs⟩

/-- A parameter with the plain tree of its type. -/
def ParamSig.tree : ParamSig TypeSig → ParamSig SignatureTree
  | ⟨modifiers, byRef, type⟩ => ⟨modifiers, byRef, type.tree⟩

/-- Parameters with the plain trees of their types. -/
def ParamSig.trees : List (ParamSig TypeSig) → List (ParamSig SignatureTree)
  | [] => []
  | p :: ps => p.tree :: ParamSig.trees ps

end

theorem TypeSig.trees_eq (ts : List TypeSig) : TypeSig.trees ts = ts.map TypeSig.tree := by
  induction ts with
  | nil => rfl
  | cons t ts ih => rw [TypeSig.trees, ih, List.map_cons]

theorem ParamSig.tree_eq (p : ParamSig TypeSig) : p.tree = p.map TypeSig.tree := by
  rcases p with ⟨modifiers, byRef, type⟩
  rw [ParamSig.tree, ParamSig.map]

theorem ParamSig.trees_eq (ps : List (ParamSig TypeSig)) :
    ParamSig.trees ps = ps.map (·.map TypeSig.tree) := by
  induction ps with
  | nil => rfl
  | cons p ps ih => rw [ParamSig.trees, ih, List.map_cons, ParamSig.tree_eq]

theorem MethodSig.tree_eq (m : MethodSig TypeSig) : m.tree = m.map TypeSig.tree := by
  rcases m with ⟨_, _, _, _, ret, params, varargs⟩
  simp only [MethodSig.tree, MethodSig.map, ParamSig.trees_eq, ParamSig.tree_eq]

/-! ### Readers of changed types -/

namespace Signature

open Decoder

variable {τ υ : Type} (f : τ → υ) (d : Decoder τ)

theorem timesOnto_map (done : List τ) (count : Nat) :
    timesOnto (f <$> d) (done.map f) count = List.map f <$> timesOnto d done count := by
  induction count generalizing done with
  | zero => simp only [timesOnto, map_pure, List.map_reverse]
  | succ count ih =>
      simp only [timesOnto, bind_map_left, map_bind]
      exact bind_congr fun t => ih (t :: done)

theorem times_map (count : Nat) : times count (f <$> d) = List.map f <$> times count d :=
  timesOnto_map f d [] count

theorem param_map : param (f <$> d) = ParamSig.map f <$> param d := by
  simp only [param, bind_map_left, map_bind, map_pure, ParamSig.map]

theorem paramsOnto_map (count : Nat) (past : Bool) (fixed further : List (ParamSig τ)) :
    paramsOnto (f <$> d) count past (fixed.map (·.map f)) (further.map (·.map f)) =
      Prod.map (List.map (·.map f)) (List.map (·.map f)) <$> paramsOnto d count past fixed further := by
  induction count generalizing past fixed further with
  | zero => simp only [paramsOnto, map_pure, Prod.map_apply, List.map_reverse]
  | succ count ih =>
      simp only [paramsOnto, param_map, bind_map_left, map_bind]
      refine bind_congr fun marked => bind_congr fun p => ?_
      split
      · exact ih true fixed (p :: further)
      · exact ih false (p :: fixed) further

/-- A method over changed types is read like the method. -/
theorem method_map : method (f <$> d) = MethodSig.map f <$> method d := by
  have hparams (count : Nat) : paramsOnto (f <$> d) count false [] [] =
      Prod.map (List.map (·.map f)) (List.map (·.map f)) <$> paramsOnto d count false [] [] :=
    paramsOnto_map f d count false [] []
  simp only [method, param_map, hparams, bind_map_left, map_bind, map_pure, Prod.map_fst,
    Prod.map_snd, MethodSig.map]

/-- A session reads changed results like the results. -/
theorem Session.read_map (s : Session) (d : Nat → Decoder τ) :
    s.read (fun levels => f <$> d levels) = ((s.read d).1.map f, (s.read d).2) := by
  have hmap : (f <$> d (budget - s.refused)) s.rest =
      EStateM.map f (d (budget - s.refused)) s.rest := rfl
  rcases hd : d (budget - s.refused) s.rest with ⟨a, rest⟩ | ⟨e, rest⟩
  · rw [EStateM.map, hd] at hmap
    simp only [Session.read, hmap, hd]
    rfl
  · rw [EStateM.map, hd] at hmap
    simp only [Session.read, hmap, hd]
    cases e <;> rfl

end Signature

/-! ### Reading plain trees -/

namespace SignatureTree

open Decoder Signature

/-- Reads what a generic instance is over. Its first byte is looked at, and then it is read like any
type. -/
def base (tree : Decoder SignatureTree) : Decoder SignatureTree := do
  let code ← peek
  match NominalKind.ofCode? code with
  | none => malformed (.badGenericBase code.toNat)
  | some _ => tree

/-- Reads what follows the element code of a type that is built from others. -/
def constructed (tree : Decoder SignatureTree) (code : UInt8) : Decoder SignatureTree :=
  match code with
  | 0x0F => do
    let _ ← modifiers
    return .pointer (← tree)
  | 0x10 => return .byRef (← tree)
  | 0x13 => return .typeParam (← Compressed.uint)
  | 0x14 => do
    let element ← tree
    let rank ← Compressed.uint
    let sizes ← Compressed.uint
    skipTimes Compressed.uint sizes
    let lowerBounds ← Compressed.uint
    skipTimes Compressed.uint lowerBounds
    return .array element rank
  | 0x15 => do
    let base ← base tree
    let count ← Compressed.uint
    let arguments ← times count tree
    return .generic base arguments
  | 0x1B => return .method (← Signature.method tree)
  | 0x1D => do
    let _ ← modifiers
    return .vector (← tree)
  | 0x1E => return .methodParam (← Compressed.uint)
  | _ => malformed (.badElementCode code.toNat)

/-- Reads a plain tree that nests at most as deep as `levels` says. -/
def reader : (levels : Nat) → Decoder SignatureTree
  | 0 => refuse
  | levels + 1 => do
    skipMarks
    let code ← next
    match SimpleType.ofCode? code with
    | some t => return .simple t
    | none =>
      match NominalKind.ofCode? code with
      | some kind => return .nominal kind (← Compressed.token)
      | none => constructed (reader levels) code

/-- Reads the plain tree of a type from the start of `bytes`. -/
def readType (bytes : ByteArray) : Except Failure SignatureTree :=
  ((Session.start bytes).read reader).1

/-- Reads a method with the plain trees of its types from the start of `bytes`. -/
def readMethod (bytes : ByteArray) : Except Failure (MethodSig SignatureTree) :=
  ((Session.start bytes).read fun levels => Signature.method (reader levels)).1

/-- **A generic instance is over a class or value type**: one of them follows the byte that was
looked at. -/
theorem base_eq (levels : Nat) :
    base (TypeSig.tree <$> type levels) =
      (fun definition => nominal definition.1 definition.2) <$> genericBase levels := by
  simp only [base, genericBase, map_bind]
  funext bytes
  cases bytes with
  | nil => rfl
  | cons b rest =>
      have hpeek : peek (b :: rest) = .ok b (b :: rest) := rfl
      rw [Reading.bind_of_eq_ok hpeek, Reading.bind_of_eq_ok hpeek]
      cases hk : NominalKind.ofCode? b with
      | none => rfl
      | some kind =>
          obtain rfl := NominalKind.code_of_ofCode? hk
          cases levels with
          | zero => rfl
          | succ levels =>
              have hmark : isMark kind.code = false := by cases kind <;> decide
              have hmarks : skipMarks (kind.code :: rest) = .ok () (kind.code :: rest) :=
                skipMarks_append .nil hmark rest
              have hsimple : SimpleType.ofCode? kind.code = none := by cases kind <;> decide
              have hnext : next (kind.code :: rest) = .ok kind.code rest := rfl
              simp only [type, map_bind]
              rw [Reading.bind_of_eq_ok hmarks, Reading.bind_of_eq_ok hnext,
                Reading.bind_of_eq_ok hnext]
              simp only [hsimple, NominalKind.ofCode?_code, map_bind, map_pure]
              rfl

/-- A type that is built from others is read like its tree. -/
theorem constructed_eq (levels : Nat) (code : UInt8) :
    constructed (TypeSig.tree <$> type levels) code =
      TypeSig.tree <$> Signature.constructed levels (type levels) code := by
  unfold constructed
  split
  case h_9 =>
    have hnone : Signature.constructed levels (type levels) code =
        malformed (.badElementCode code.toNat) := by
      unfold Signature.constructed
      split <;> first | rfl | contradiction
    rw [hnone]
    rfl
  all_goals simp only [Signature.constructed, base_eq, times_map, method_map, bind_map_left,
    map_bind, map_pure, TypeSig.tree, TypeSig.trees_eq, MethodSig.tree_eq]

/-- **Reading a plain tree is reading a signature.** -/
theorem reader_eq (levels : Nat) : reader levels = TypeSig.tree <$> type levels := by
  induction levels with
  | zero => rfl
  | succ levels ih =>
      simp only [reader, type, ih, map_bind]
      refine bind_congr fun _ => bind_congr fun code => ?_
      cases SimpleType.ofCode? code with
      | some t => simp only [map_pure, TypeSig.tree]
      | none =>
          cases NominalKind.ofCode? code with
          | some kind => simp only [map_bind, map_pure, TypeSig.tree]
          | none => exact constructed_eq levels code

theorem readType_eq (bytes : ByteArray) :
    readType bytes = (Signature.readType bytes).map TypeSig.tree := by
  have hreader : reader = fun levels => TypeSig.tree <$> type levels := funext reader_eq
  rw [readType, hreader, Session.read_map]
  rfl

theorem readMethod_eq (bytes : ByteArray) :
    readMethod bytes = (Signature.readMethod bytes).map (MethodSig.map TypeSig.tree) := by
  have hreader : (fun levels => Signature.method (reader levels)) =
      fun levels => MethodSig.map TypeSig.tree <$> Signature.method (type levels) := by
    funext levels
    rw [reader_eq, method_map]
  rw [readMethod, hreader, Session.read_map]
  rfl

end SignatureTree

end AliasStubs
