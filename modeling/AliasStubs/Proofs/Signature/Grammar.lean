import AliasStubs.Proofs.Metadata.Compressed
import AliasStubs.Signature.Reader

/-!
# The grammar of signatures

What a signature looks like in bytes, as relations that mention no decoder. A type is written as its
element code and what belongs to it, behind any run of **marks**: custom modifiers and marks of
pinned values, which leave no trace in the type. Every number and token may take any of its written
forms, so a type has many written forms.

The relations for parameters, methods and single constructions take the relation `E` for the types
inside them as an argument; `WrittenType` closes the knot.

## Two ambiguities

* A parameter starts with its own modifiers, and a byte `0x10` right behind them says that the
  parameter is passed by reference. So the type of a parameter that is not passed by reference
  starts neither with a modifier nor with `0x10`: to pass a type that is itself a reference, a mark
  of a pinned value must come before it.
* A sentinel must stand before the first of the further arguments, and may stand again before any
  later one.

## Main definitions

* `TypeSig.parts`, `MethodSig.types` : the types one level down.
* `WrittenParam`, `WrittenMethod` : the written forms of parameters and methods.
* `WrittenType` : the written forms of types.

## Main results

* `TypeSig.depth_le_succ_iff` : a type nests one level deeper than its parts.
* `WrittenConstruction.and_iff` : a condition on the parts of a type can be checked beside its
  written form.
-/

namespace AliasStubs

open Decoder

/-! ### The types one level down -/

/-- The types of a method: of its return value, of its parameters and of the further arguments. -/
def MethodSig.types {τ : Type} (m : MethodSig τ) : List τ :=
  m.ret.type :: (m.params.map (·.type) ++ m.varargs.map (·.type))

/-- The types that a type is built from. A generic type is built from its definition, too. -/
def TypeSig.parts : TypeSig → List TypeSig
  | .simple _ | .nominal _ _ | .typeParam _ | .methodParam _ => []
  | .pointer target => [target]
  | .byRef target => [target]
  | .vector element => [element]
  | .array element _ => [element]
  | .generic kind definition arguments => .nominal kind definition :: arguments
  | .method signature => signature.types

theorem TypeSig.depths_le_iff {ts : List TypeSig} {n : Nat} :
    TypeSig.depths ts ≤ n ↔ ∀ t ∈ ts, t.depth ≤ n := by
  induction ts with
  | nil => simp [TypeSig.depths]
  | cons t ts ih => rw [TypeSig.depths, Nat.max_le, ih, List.forall_mem_cons]

theorem ParamSig.depths_le_iff {ps : List (ParamSig TypeSig)} {n : Nat} :
    ParamSig.depths ps ≤ n ↔ ∀ t ∈ ps.map (·.type), t.depth ≤ n := by
  induction ps with
  | nil => simp [ParamSig.depths]
  | cons p ps ih =>
      rw [ParamSig.depths, Nat.max_le, ih, List.map_cons, List.forall_mem_cons, ParamSig.depth]

theorem MethodSig.depth_le_iff {m : MethodSig TypeSig} {n : Nat} :
    m.depth ≤ n ↔ ∀ t ∈ m.types, t.depth ≤ n := by
  rw [MethodSig.depth, Nat.max_le, Nat.max_le, ParamSig.depths_le_iff, ParamSig.depths_le_iff,
    MethodSig.types, List.forall_mem_cons, List.forall_mem_append, ParamSig.depth]

theorem TypeSig.one_le_depth (t : TypeSig) : 1 ≤ t.depth := by
  cases t <;> simp [TypeSig.depth]

/-- A type nests one level deeper than its parts. -/
theorem TypeSig.depth_le_succ_iff {t : TypeSig} {n : Nat} :
    t.depth ≤ n + 1 ↔ ∀ u ∈ t.parts, u.depth ≤ n := by
  cases t with
  | simple | nominal | typeParam | methodParam => simp [TypeSig.depth, TypeSig.parts]
  | pointer | byRef | vector | array => simp [TypeSig.depth, TypeSig.parts]
  | generic k d as =>
      rw [TypeSig.depth, TypeSig.parts, Nat.add_le_add_iff_right, Nat.max_le,
        TypeSig.depths_le_iff, List.forall_mem_cons, TypeSig.depth]
  | method m => rw [TypeSig.depth, TypeSig.parts, Nat.add_le_add_iff_right, MethodSig.depth_le_iff]

namespace Signature

open Compressed

variable {τ : Type}

/-! ### What may stand before a type -/

/-- The written forms of a list of custom modifiers. -/
inductive WrittenModifiers : List Token → List UInt8 → Prop
  | nil : WrittenModifiers [] []
  | cons {b : UInt8} {t : Token} {ts : List Token} {p q : List UInt8} (hb : isModifier b = true)
      (token : WrittenToken t p) (rest : WrittenModifiers ts q) :
      WrittenModifiers (t :: ts) (b :: (p ++ q))

/-- The runs of custom modifiers and marks of pinned values. -/
inductive Marks : List UInt8 → Prop
  | nil : Marks []
  | pinned {q : List UInt8} (rest : Marks q) : Marks (pinned :: q)
  | modifier {b : UInt8} {t : Token} {p q : List UInt8} (hb : isModifier b = true)
      (token : WrittenToken t p) (rest : Marks q) : Marks (b :: (p ++ q))

/-! ### Parameters and methods -/

/-- The written forms of a parameter or return value. -/
inductive WrittenParam (E : τ → List UInt8 → Prop) : ParamSig τ → List UInt8 → Prop
  | byRef {ms : List Token} {t : τ} {p q : List UInt8} (modifiers : WrittenModifiers ms p)
      (type : E t q) : WrittenParam E ⟨ms, true, t⟩ (p ++ byReference :: q)
  | byValue {ms : List Token} {t : τ} {p q : List UInt8} (modifiers : WrittenModifiers ms p)
      (type : E t q) (hq : ∀ b ∈ q.head?, isModifier b = false ∧ b ≠ byReference) :
      WrittenParam E ⟨ms, false, t⟩ (p ++ q)

/-- The written forms of the further arguments, given whether a sentinel has stood before. -/
inductive WrittenFurther (E : τ → List UInt8 → Prop) :
    Bool → List (ParamSig τ) → List UInt8 → Prop
  | nil {past : Bool} : WrittenFurther E past [] []
  | marked {past : Bool} {v : ParamSig τ} {vs : List (ParamSig τ)} {p q : List UInt8}
      (head : WrittenParam E v p) (tail : WrittenFurther E true vs q) :
      WrittenFurther E past (v :: vs) (sentinel :: (p ++ q))
  | plain {v : ParamSig τ} {vs : List (ParamSig τ)} {p q : List UInt8} (head : WrittenParam E v p)
      (tail : WrittenFurther E true vs q) : WrittenFurther E true (v :: vs) (p ++ q)

/-- The written forms of the number of generic parameters, which the calling convention
announces. -/
inductive WrittenGenericCount (convention : UInt8) : Nat → List UInt8 → Prop
  | absent (h : convention &&& 0x10 = 0) : WrittenGenericCount convention 0 []
  | present {n : Nat} {p : List UInt8} (h : convention &&& 0x10 ≠ 0) (count : Written n p) :
      WrittenGenericCount convention n p

/-- The written forms of a method: the calling convention, the number of generic parameters, the
number of parameters and further arguments together, and these themselves behind the return
value. -/
inductive WrittenMethod (E : τ → List UInt8 → Prop) : MethodSig τ → List UInt8 → Prop
  | mk {convention : UInt8} {genericCount : Nat} {ret : ParamSig τ}
      {params varargs : List (ParamSig τ)} {g k r f v : List UInt8}
      (generics : WrittenGenericCount convention genericCount g)
      (count : Written (params.length + varargs.length) k)
      (hret : WrittenParam E ret r)
      (fixed : Repeated (WrittenParam E) params f)
      (further : WrittenFurther E false varargs v) :
      WrittenMethod E
        { hasThis := convention &&& 0x20 != 0
          explicitThis := convention &&& 0x40 != 0
          vararg := convention &&& 0x0F == 0x05
          genericCount, ret, params, varargs }
        (convention :: (g ++ (k ++ (r ++ (f ++ v)))))

/-! ### Types -/

/-- The written forms of a type without marks before it. Sizes and lower bounds of an array are
counted, and leave no trace in the type. -/
inductive WrittenConstruction (E : TypeSig → List UInt8 → Prop) : TypeSig → List UInt8 → Prop
  | simple (t : SimpleType) : WrittenConstruction E (.simple t) [t.code]
  | pointer {t : TypeSig} {p : List UInt8} (target : E t p) :
      WrittenConstruction E (.pointer t) (0x0F :: p)
  | byRef {t : TypeSig} {p : List UInt8} (target : E t p) :
      WrittenConstruction E (.byRef t) (0x10 :: p)
  | nominal {k : NominalKind} {d : Token} {p : List UInt8} (token : WrittenToken d p) :
      WrittenConstruction E (.nominal k d) (k.code :: p)
  | typeParam {n : Nat} {p : List UInt8} (index : Written n p) :
      WrittenConstruction E (.typeParam n) (0x13 :: p)
  | array {t : TypeSig} {rank : Nat} {sizes bounds : List Nat} {p r m s n l : List UInt8}
      (element : E t p) (hrank : Written rank r)
      (sizeCount : Written sizes.length m) (hsizes : Repeated Written sizes s)
      (boundCount : Written bounds.length n) (hbounds : Repeated Written bounds l) :
      WrittenConstruction E (.array t rank) (0x14 :: (p ++ (r ++ (m ++ (s ++ (n ++ l))))))
  | generic {k : NominalKind} {d : Token} {as : List TypeSig} {p n q : List UInt8}
      (definition : E (.nominal k d) (k.code :: p)) (count : Written as.length n)
      (arguments : Repeated E as q) :
      WrittenConstruction E (.generic k d as) (0x15 :: k.code :: (p ++ (n ++ q)))
  | method {m : MethodSig TypeSig} {p : List UInt8} (signature : WrittenMethod E m p) :
      WrittenConstruction E (.method m) (0x1B :: p)
  | vector {t : TypeSig} {p : List UInt8} (element : E t p) :
      WrittenConstruction E (.vector t) (0x1D :: p)
  | methodParam {n : Nat} {p : List UInt8} (index : Written n p) :
      WrittenConstruction E (.methodParam n) (0x1E :: p)

/-- The **written forms of a type**: any run of marks, and the type itself. -/
inductive WrittenType : TypeSig → List UInt8 → Prop
  | mk {t : TypeSig} {m p : List UInt8} (marks : Marks m)
      (construction : WrittenConstruction WrittenType t p) : WrittenType t (m ++ p)

/-! ### Conditions on the parts -/

section Conditions

variable {E : τ → List UInt8 → Prop} {P : τ → Prop}

theorem WrittenParam.and_iff {x : ParamSig τ} {p : List UInt8} :
    WrittenParam (fun t q => E t q ∧ P t) x p ↔ WrittenParam E x p ∧ P x.type := by
  constructor
  · rintro (⟨hm, ht, hP⟩ | ⟨hm, ⟨ht, hP⟩, hq⟩)
    · exact ⟨.byRef hm ht, hP⟩
    · exact ⟨.byValue hm ht hq, hP⟩
  · rintro ⟨⟨hm, ht⟩ | ⟨hm, ht, hq⟩, hP⟩
    · exact .byRef hm ⟨ht, hP⟩
    · exact .byValue hm ⟨ht, hP⟩ hq

theorem WrittenFurther.and_iff {past : Bool} {vs : List (ParamSig τ)} {p : List UInt8} :
    WrittenFurther (fun t q => E t q ∧ P t) past vs p ↔
      WrittenFurther E past vs p ∧ ∀ v ∈ vs, P v.type := by
  constructor
  · intro h
    induction h with
    | nil => exact ⟨.nil, by simp⟩
    | marked head _ ih =>
        obtain ⟨hv, hP⟩ := WrittenParam.and_iff.mp head
        exact ⟨.marked hv ih.1, List.forall_mem_cons.mpr ⟨hP, ih.2⟩⟩
    | plain head _ ih =>
        obtain ⟨hv, hP⟩ := WrittenParam.and_iff.mp head
        exact ⟨.plain hv ih.1, List.forall_mem_cons.mpr ⟨hP, ih.2⟩⟩
  · rintro ⟨h, hP⟩
    induction h with
    | nil => exact .nil
    | marked head _ ih =>
        obtain ⟨hv, hvs⟩ := List.forall_mem_cons.mp hP
        exact .marked (WrittenParam.and_iff.mpr ⟨head, hv⟩) (ih hvs)
    | plain head _ ih =>
        obtain ⟨hv, hvs⟩ := List.forall_mem_cons.mp hP
        exact .plain (WrittenParam.and_iff.mpr ⟨head, hv⟩) (ih hvs)

theorem repeated_writtenParam_and_iff {xs : List (ParamSig τ)} {p : List UInt8} :
    Repeated (WrittenParam fun t q => E t q ∧ P t) xs p ↔
      Repeated (WrittenParam E) xs p ∧ ∀ x ∈ xs, P x.type := by
  have hfun : (WrittenParam fun t q => E t q ∧ P t) = fun x q => WrittenParam E x q ∧ P x.type := by
    funext x q
    exact propext WrittenParam.and_iff
  rw [hfun, Repeated.and_iff]

/-- A condition on the types of a method can be checked beside its written form. -/
theorem WrittenMethod.and_iff {m : MethodSig τ} {p : List UInt8} :
    WrittenMethod (fun t q => E t q ∧ P t) m p ↔ WrittenMethod E m p ∧ ∀ t ∈ m.types, P t := by
  constructor
  · rintro ⟨hg, hk, hr, hf, hv⟩
    obtain ⟨hr, hPr⟩ := WrittenParam.and_iff.mp hr
    obtain ⟨hf, hPf⟩ := repeated_writtenParam_and_iff.mp hf
    obtain ⟨hv, hPv⟩ := WrittenFurther.and_iff.mp hv
    refine ⟨⟨hg, hk, hr, hf, hv⟩, ?_⟩
    rw [MethodSig.types, List.forall_mem_cons, List.forall_mem_append, List.forall_mem_map,
      List.forall_mem_map]
    exact ⟨hPr, hPf, hPv⟩
  · rintro ⟨⟨hg, hk, hr, hf, hv⟩, hP⟩
    rw [MethodSig.types, List.forall_mem_cons, List.forall_mem_append, List.forall_mem_map,
      List.forall_mem_map] at hP
    obtain ⟨hPr, hPf, hPv⟩ := hP
    exact ⟨hg, hk, WrittenParam.and_iff.mpr ⟨hr, hPr⟩,
      repeated_writtenParam_and_iff.mpr ⟨hf, hPf⟩, WrittenFurther.and_iff.mpr ⟨hv, hPv⟩⟩

end Conditions

/-- A condition on the parts of a type can be checked beside its written form. -/
theorem WrittenConstruction.and_iff {E : TypeSig → List UInt8 → Prop} {P : TypeSig → Prop}
    {t : TypeSig} {p : List UInt8} :
    WrittenConstruction (fun u q => E u q ∧ P u) t p ↔
      WrittenConstruction E t p ∧ ∀ u ∈ t.parts, P u := by
  constructor
  · intro h
    cases h with
    | simple t => exact ⟨.simple t, by simp [TypeSig.parts]⟩
    | pointer h => exact ⟨.pointer h.1, List.forall_mem_singleton.mpr h.2⟩
    | byRef h => exact ⟨.byRef h.1, List.forall_mem_singleton.mpr h.2⟩
    | vector h => exact ⟨.vector h.1, List.forall_mem_singleton.mpr h.2⟩
    | nominal h => exact ⟨.nominal h, by simp [TypeSig.parts]⟩
    | typeParam h => exact ⟨.typeParam h, by simp [TypeSig.parts]⟩
    | methodParam h => exact ⟨.methodParam h, by simp [TypeSig.parts]⟩
    | array h hr hm hs hn hl =>
        exact ⟨.array h.1 hr hm hs hn hl, List.forall_mem_singleton.mpr h.2⟩
    | generic hd hn has =>
        obtain ⟨has, hP⟩ := Repeated.and_iff.mp has
        exact ⟨.generic hd.1 hn has, List.forall_mem_cons.mpr ⟨hd.2, hP⟩⟩
    | method h =>
        obtain ⟨hm, hP⟩ := WrittenMethod.and_iff.mp h
        exact ⟨.method hm, hP⟩
  · rintro ⟨h, hP⟩
    cases h with
    | simple t => exact .simple t
    | pointer h => exact .pointer ⟨h, List.forall_mem_singleton.mp hP⟩
    | byRef h => exact .byRef ⟨h, List.forall_mem_singleton.mp hP⟩
    | vector h => exact .vector ⟨h, List.forall_mem_singleton.mp hP⟩
    | nominal h => exact .nominal h
    | typeParam h => exact .typeParam h
    | methodParam h => exact .methodParam h
    | array h hr hm hs hn hl => exact .array ⟨h, List.forall_mem_singleton.mp hP⟩ hr hm hs hn hl
    | generic hd hn has =>
        obtain ⟨hPd, hPas⟩ := List.forall_mem_cons.mp hP
        exact .generic ⟨hd, hPd⟩ hn (Repeated.and_iff.mpr ⟨has, hPas⟩)
    | method h => exact .method (WrittenMethod.and_iff.mpr ⟨h, hP⟩)

/-! ### First bytes -/

/-- Whether a byte is part of a mark: it starts a modifier, or marks a pinned value. -/
def isMark (b : UInt8) : Bool :=
  b == pinned || isModifier b

/-- The first byte of a type tells it from a mark and from a sentinel. -/
theorem WrittenConstruction.exists_cons {E : TypeSig → List UInt8 → Prop} {t : TypeSig}
    {p : List UInt8} (h : WrittenConstruction E t p) :
    ∃ b q, p = b :: q ∧ isMark b = false ∧ b ≠ sentinel := by
  cases h with
  | simple t =>
      refine ⟨t.code, [], rfl, ?_⟩
      cases t <;> decide
  | @nominal k _ p =>
      refine ⟨k.code, p, rfl, ?_⟩
      cases k <;> decide
  | _ => exact ⟨_, _, rfl, by decide, by decide⟩

/-- The element code of a simple type is all of it. -/
theorem WrittenConstruction.of_simple {E : TypeSig → List UInt8 → Prop} {s : SimpleType}
    {t : TypeSig} {p : List UInt8} (h : WrittenConstruction E t (s.code :: p)) :
    t = .simple s ∧ p = [] := by
  generalize hb : s.code :: p = bytes at h
  cases h with
  | simple s' =>
      obtain ⟨hs, rfl⟩ := List.cons.inj hb
      have := congrArg SimpleType.ofCode? hs
      rw [SimpleType.ofCode?_code, SimpleType.ofCode?_code] at this
      exact ⟨by rw [Option.some.inj this], rfl⟩
  | @nominal k =>
      exact absurd (List.cons.inj hb).1 (by cases s <;> cases k <;> decide)
  | _ => exact absurd (List.cons.inj hb).1 (by cases s <;> decide)

/-- Behind the element code of a defined type stands its token. -/
theorem WrittenConstruction.of_nominal {E : TypeSig → List UInt8 → Prop} {k : NominalKind}
    {t : TypeSig} {p : List UInt8} (h : WrittenConstruction E t (k.code :: p)) :
    ∃ d, t = .nominal k d ∧ WrittenToken d p := by
  generalize hb : k.code :: p = bytes at h
  cases h with
  | simple s => exact absurd (List.cons.inj hb).1 (by cases s <;> cases k <;> decide)
  | @nominal k' d q token =>
      obtain ⟨hk, rfl⟩ := List.cons.inj hb
      have := congrArg NominalKind.ofCode? hk
      rw [NominalKind.ofCode?_code, NominalKind.ofCode?_code] at this
      exact ⟨d, by rw [Option.some.inj this], token⟩
  | _ => exact absurd (List.cons.inj hb).1 (by cases k <;> decide)

/-- Whether every written form starts with some byte, and none with a sentinel. -/
def Headed (E : τ → List UInt8 → Prop) : Prop :=
  ∀ {t : τ} {p : List UInt8}, E t p → ∃ b q, p = b :: q ∧ b ≠ sentinel

/-- Parameters start like their modifiers, like a mark, or like their types. -/
theorem Headed.param {E : τ → List UInt8 → Prop} (hE : Headed E) : Headed (WrittenParam E) := by
  have hmod {ms : List Token} {p r : List UInt8} (hm : WrittenModifiers ms p)
      (hr : ∃ b q, r = b :: q ∧ b ≠ sentinel) : ∃ b q, p ++ r = b :: q ∧ b ≠ sentinel := by
    cases hm with
    | nil => exact hr
    | cons hb => exact ⟨_, _, rfl, fun hs => absurd (hs ▸ hb) (by decide)⟩
  intro x p h
  cases h with
  | byRef hm => exact hmod hm ⟨_, _, rfl, by decide⟩
  | byValue hm ht => exact hmod hm (hE ht)

/-- A run of marks is empty or starts with one. -/
theorem Marks.eq_nil_or_cons {m : List UInt8} (h : Marks m) :
    m = [] ∨ ∃ b q, m = b :: q ∧ isMark b = true := by
  cases h with
  | nil => exact .inl rfl
  | pinned => exact .inr ⟨_, _, rfl, by decide⟩
  | modifier hb => exact .inr ⟨_, _, rfl, by simp [isMark, hb]⟩

/-- A type is written with at least one byte, and does not start with a sentinel. -/
theorem headed_writtenType : Headed WrittenType := by
  rintro t p ⟨marks, construction⟩
  rcases marks.eq_nil_or_cons with rfl | ⟨b, q, rfl, hb⟩
  · obtain ⟨b, q, rfl, -, hs⟩ := construction.exists_cons
    exact ⟨b, q, rfl, hs⟩
  · exact ⟨b, _, rfl, fun hs => absurd (hs ▸ hb) (by decide)⟩

/-- A defined type without marks before it is its element code and its token. -/
theorem writtenType_nominal_iff {k : NominalKind} {d : Token} {p : List UInt8} :
    WrittenType (.nominal k d) (k.code :: p) ↔ WrittenToken d p := by
  constructor
  · intro h
    generalize hbytes : k.code :: p = bytes at h
    obtain ⟨marks, construction⟩ := h
    rcases marks.eq_nil_or_cons with rfl | ⟨b, q, rfl, hb⟩
    · cases construction with
      | nominal token =>
          obtain ⟨-, rfl⟩ := List.cons.inj hbytes
          exact token
    · obtain ⟨rfl, -⟩ := List.cons.inj hbytes
      cases k <;> exact absurd hb (by decide)
  · intro h
    exact WrittenType.mk .nil (.nominal h)

end Signature

end AliasStubs
