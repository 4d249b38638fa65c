import AliasStubs.Assembly.Resolution
import AliasStubs.Proofs.Assembly.Names
import AliasStubs.Proofs.Assembly.Runs
import Mathlib.Data.List.ReduceOption

/-!
# What attributes say

The attributes of methods are joined from six tables: a row of the attributes names a method and a
constructor, the constructor is a method or a reference to one, and either belongs to a class, which
is a definition, a reference or an instance. What a row contributes is said here in terms of the
tables alone, case by case.

## Main definitions

* `ParentClass` and `ConstructorClass` : the class that a reference or a constructor belongs to.
* `AttributeOf` : what a row of the attributes contributes.
* `HasAttributes` : a method has the attributes that rows contribute to it.

## Main results

* `AttributeOf.unique` : **a row contributes one thing** at most.
-/

namespace AliasStubs

/-! ### Classes of constructors -/

/-- A row of the type specifications holds a signature. -/
def Metadata.Specifies (m : Metadata) (row : Nat) (signature : TypeSig) : Prop :=
  ∃ s bytes, m.tables.row? TypeSpecRow row = some s ∧ m.blob s.signature = .ok bytes ∧
    Signature.readType bytes = .ok signature

/-- The class that the members of a parent **belong to**, by a token that stands for it, or none if
the parent is no class. -/
inductive ParentClass (m : Metadata) : CodedIndex → Option Token → Prop
  /-- A definition or a reference is meant itself. -/
  | named {parent : CodedIndex} {t : Token}
      (hparent : parent.table = .typeDef ∨ parent.table = .typeRef)
      (ht : t.Denotes parent.table parent.row) : ParentClass m parent (some t)
  /-- An instance of a generic type is taken for the definition of that type. -/
  | generic {row : Nat} {kind : NominalKind} {t : Token} {arguments : List TypeSig}
      (hsignature : m.Specifies row (.generic kind t arguments)) :
      ParentClass m ⟨.typeSpec, row⟩ (some t)
  /-- A class may be given by a signature. -/
  | specified {row : Nat} {t : Token} (hsignature : m.Specifies row (.nominal .reference t)) :
      ParentClass m ⟨.typeSpec, row⟩ (some t)
  /-- No other signature gives a class. -/
  | specifiedOther {row : Nat} {signature : TypeSig} (hsignature : m.Specifies row signature)
      (hgeneric : ∀ kind t arguments, signature ≠ .generic kind t arguments)
      (hclass : ∀ t, signature ≠ .nominal .reference t) : ParentClass m ⟨.typeSpec, row⟩ none
  /-- Nothing else is a type. -/
  | other {parent : CodedIndex}
      (hparent : parent.table ∉ [TableId.typeDef, .typeRef, .typeSpec]) :
      ParentClass m parent none

/-- The class that a constructor **belongs to**, by a token that stands for it, or none. -/
inductive ConstructorClass (m : Metadata) (types : Array TypeDefRow) (methodCount : Nat) :
    CodedIndex → Option Token → Prop
  /-- A method belongs to its owner. -/
  | owned {row i : Nat} {t : Token} (hrow : row ≠ 0)
      (howner : IsOwner types methodCount (row - 1) (i + 1)) (ht : t.Denotes .typeDef (i + 1)) :
      ConstructorClass m types methodCount ⟨.methodDef, row⟩ (some t)
  /-- A method that does not exist, or that no type owns, belongs to no class. -/
  | unowned {row : Nat}
      (h : row = 0 ∨ methodCount < row ∨ IsOwner types methodCount (row - 1) 0) :
      ConstructorClass m types methodCount ⟨.methodDef, row⟩ none
  /-- A reference to a method belongs to the class of its parent. -/
  | member {row : Nat} {r : MemberRefRow} {t? : Option Token}
      (hr : m.tables.row? MemberRefRow row = some r) (hparent : ParentClass m r.parent t?) :
      ConstructorClass m types methodCount ⟨.memberRef, row⟩ t?
  /-- Nothing else is a constructor. -/
  | other {constructor : CodedIndex} (hdef : constructor.table ≠ .methodDef)
      (href : constructor.table ≠ .memberRef) :
      ConstructorClass m types methodCount constructor none

/-- What a row of the attributes **contributes** to the method that it is put on: the namespace of
the outermost type and the name of the class of its constructor, or nothing. -/
inductive AttributeOf (m : Metadata) (types : Array TypeDefRow) (methodCount : Nat)
    (r : CustomAttributeRow) : Option AttributeType → Prop
  | of_class {t : Token} {n : TypeName}
      (hclass : ConstructorClass m types methodCount r.constructor (some t))
      (hname : m.Named maxLevels t n) :
      AttributeOf m types methodCount r (some ⟨n.rootNamespace, n.innermost.name⟩)
  | of_none (hclass : ConstructorClass m types methodCount r.constructor none) :
      AttributeOf m types methodCount r none

/-- The attributes of the method `d`, at the position `p`, are those that the rows which mark it
contribute, in their order, one for each row that contributes any. -/
def HasAttributes (m : Metadata) (types : Array TypeDefRow) (methodCount : Nat)
    (rows : Array CustomAttributeRow) (p : Nat) (d : MethodDefinition) : Prop :=
  ∃ contributed, List.Forall₂ (AttributeOf m types methodCount)
      (rows.toList.filter (·.parent = ⟨.methodDef, p + 1⟩)) contributed ∧
    d.attributes = contributed.reduceOption

/-! ### One row, one attribute -/

section Unique

variable {m : Metadata} {types : Array TypeDefRow} {methodCount : Nat}

theorem Metadata.Specifies.unique {row : Nat} {signature signature' : TypeSig}
    (h : m.Specifies row signature) (h' : m.Specifies row signature') : signature = signature' := by
  obtain ⟨s, bytes, hs, hbytes, hsignature⟩ := h
  obtain ⟨s', bytes', hs', hbytes', hsignature'⟩ := h'
  cases hs.symm.trans hs'
  cases hbytes.symm.trans hbytes'
  exact Except.ok.inj (hsignature.symm.trans hsignature')

/-- The class of a parent that is given by a signature is taken from that signature. -/
theorem ParentClass.exists_signature {row : Nat} {t? : Option Token}
    (h : ParentClass m ⟨.typeSpec, row⟩ t?) :
    ∃ signature, m.Specifies row signature ∧ t? = TypeIndex.classToken? signature := by
  cases h with
  | named hparent => rcases hparent with h | h <;> cases h
  | generic hsignature => exact ⟨_, hsignature, rfl⟩
  | specified hsignature => exact ⟨_, hsignature, rfl⟩
  | specifiedOther hsignature hgeneric hclass =>
      refine ⟨_, hsignature, ?_⟩
      unfold TypeIndex.classToken?
      split
      · exact absurd rfl (hgeneric _ _ _)
      · exact absurd rfl (hclass _)
      · rfl
  | other hparent => exact absurd (by simp) hparent

theorem ParentClass.unique {parent : CodedIndex} {t? t?' : Option Token}
    (h : ParentClass m parent t?) (h' : ParentClass m parent t?') : t? = t?' := by
  rcases parent with ⟨table, row⟩
  by_cases hspec : table = .typeSpec
  · subst hspec
    obtain ⟨signature, hsignature, rfl⟩ := h.exists_signature
    obtain ⟨signature', hsignature', rfl⟩ := h'.exists_signature
    rw [hsignature.unique hsignature']
  · cases h with
    | named hparent ht =>
        cases h' with
        | named _ ht' => rw [ht.unique ht']
        | other hparent' => rcases hparent with rfl | rfl <;> exact absurd (by simp) hparent'
        | generic | specified | specifiedOther => exact absurd rfl hspec
    | other hparent =>
        cases h' with
        | named hparent' => rcases hparent' with rfl | rfl <;> exact absurd (by simp) hparent
        | other => rfl
        | generic | specified | specifiedOther => exact absurd rfl hspec
    | generic | specified | specifiedOther => exact absurd rfl hspec

/-- A method that has an owner exists and does not lack one. -/
theorem not_unowned {row i : Nat} (hrow : row ≠ 0)
    (howner : IsOwner types methodCount (row - 1) (i + 1)) :
    ¬ (row = 0 ∨ methodCount < row ∨ IsOwner types methodCount (row - 1) 0) := by
  rintro (hzero | hlt | hnone)
  · exact hrow hzero
  · have := howner.lt_methodCount
    omega
  · cases howner.unique hnone

theorem ConstructorClass.unique {constructor : CodedIndex} {t? t?' : Option Token}
    (h : ConstructorClass m types methodCount constructor t?)
    (h' : ConstructorClass m types methodCount constructor t?') : t? = t?' := by
  cases h with
  | owned hrow howner ht =>
      cases h' with
      | owned _ howner' ht' =>
          cases howner.unique howner'
          rw [ht.unique ht']
      | unowned hwhy => exact absurd hwhy (not_unowned hrow howner)
      | other hdef => exact absurd rfl hdef
  | unowned hwhy =>
      cases h' with
      | owned hrow' howner' => exact absurd hwhy (not_unowned hrow' howner')
      | unowned => rfl
      | other hdef => exact absurd rfl hdef
  | member hr hparent =>
      cases h' with
      | member hr' hparent' =>
          cases hr.symm.trans hr'
          exact hparent.unique hparent'
      | other _ href => exact absurd rfl href
  | other hdef href =>
      cases h' with
      | owned | unowned => exact absurd rfl hdef
      | member => exact absurd rfl href
      | other => rfl

/-- **A row contributes one thing** at most. -/
theorem AttributeOf.unique {r : CustomAttributeRow} {a? a?' : Option AttributeType}
    (h : AttributeOf m types methodCount r a?) (h' : AttributeOf m types methodCount r a?') :
    a? = a?' := by
  cases h with
  | of_class hclass hname =>
      cases h' with
      | of_class hclass' hname' =>
          cases hclass.unique hclass'
          rw [hname.unique hname']
      | of_none hclass' => cases hclass.unique hclass'
  | of_none hclass =>
      cases h' with
      | of_class hclass' => cases hclass.unique hclass'
      | of_none => rfl

end Unique

end AliasStubs
