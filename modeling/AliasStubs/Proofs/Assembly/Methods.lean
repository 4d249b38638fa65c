import AliasStubs.Proofs.Assembly.Joined

/-!
# What is told of methods

A method is told from its row, its signature and a run of rows for its parameters. The signature
says how many parameters there are and what their types are. The rows say what they are called and
how they are passed, and are found by their number: of several rows with one number the last one
counts, and where there is none, or one without a name, the number makes the name.

## Main definitions

* `lastNumbered` : the last row with a number.
* `Metadata.DeclaresParam` : what rows say of the parameter with a number.
* `Introspection.HasParameter` : what a parameter is called and which type it has.
* `Introspection.Loads` : everything that is told of a method.

## Main results

* `Introspection.declaresParam_last?` : the names collected for a method are **those of the last
  rows**.
* `Introspection.parameter_eq_ok_iff` : a parameter is told exactly if it can be numbered.
* `Introspection.method_eq_ok_iff` : **a method is told exactly if all of it can be read**.
-/

namespace AliasStubs

/-! ### Rows of parameters -/

/-- The last of several rows with a number. -/
def lastNumbered (rows : List ParamRow) (number : Nat) : Option ParamRow :=
  (rows.filter (·.sequence = number)).getLast?

/-- What rows **declare** of the parameter with a number: its name, which may be empty, and its
attributes. -/
inductive Metadata.DeclaresParam (m : Metadata) (rows : List ParamRow) (number : Nat) :
    String → ParamAttributes → Prop
  | row {r : ParamRow} {name : String} (hrow : lastNumbered rows number = some r)
      (hname : m.string r.name = .ok name) :
      DeclaresParam m rows number name (.ofBits r.flags)
  | missing (hrow : lastNumbered rows number = none) : DeclaresParam m rows number "" .none

/-- Rows declare one thing of a parameter. -/
theorem Metadata.DeclaresParam.unique {m : Metadata} {rows : List ParamRow} {number : Nat}
    {name name' : String} {a a' : ParamAttributes} (h : m.DeclaresParam rows number name a)
    (h' : m.DeclaresParam rows number name' a') : name = name' ∧ a = a' := by
  cases h with
  | row hrow hname =>
      cases h' with
      | row hrow' hname' =>
          cases hrow.symm.trans hrow'
          cases hname.symm.trans hname'
          exact ⟨rfl, rfl⟩
      | missing hrow' => cases hrow.symm.trans hrow'
  | missing hrow =>
      cases h' with
      | row hrow' => cases hrow.symm.trans hrow'
      | missing => exact ⟨rfl, rfl⟩

/-- What rows declare is found if the names of all of them that stand for parameters can be
read. -/
theorem Metadata.exists_declaresParam {m : Metadata} {rows : List ParamRow} {number : Nat}
    (hnames : ∀ r ∈ rows, r.sequence ≠ 0 → ∃ name, m.string r.name = .ok name)
    (hnumber : number ≠ 0) : ∃ name attributes, m.DeclaresParam rows number name attributes := by
  cases hrow : lastNumbered rows number with
  | none => exact ⟨_, _, .missing hrow⟩
  | some r =>
      obtain ⟨hr, hsequence⟩ := List.mem_filter.mp (List.mem_of_getLast? hrow)
      obtain ⟨name, hname⟩ := hnames r hr (of_decide_eq_true hsequence ▸ hnumber)
      exact ⟨_, _, .row hrow hname⟩

namespace Introspection

variable {x : Introspection}

/-- The run of the parameters of the method at the position `p`, in a table of `size` rows. -/
def paramRun (x : Introspection) (size p : Nat) : Run :=
  .ofOwner x.methods (·.paramList) size p

/-- The rows of the parameters of a method. -/
def paramRows (x : Introspection) (p : Nat) : List ParamRow :=
  (x.paramRun x.params.size p).rows x.params

/-- What a row says, under its number. -/
def Says (x : Introspection) (r : ParamRow) (e : Nat × String × ParamAttributes) : Prop :=
  ∃ name, x.metadata.string r.name = .ok name ∧ e = (r.sequence, name, .ofBits r.flags)

/-- What rows say is collected if the names in those can be read that stand for parameters. -/
theorem declaredParams_eq_ok_iff {p : Nat} {declared : Grouping Nat (String × ParamAttributes)} :
    x.declaredParams p = .ok declared ↔ ∃ named,
      List.Forall₂ x.Says ((x.paramRows p).filter (·.sequence ≠ 0)) named ∧
        .ofList named = declared := by
  have hsays (r : ParamRow) (e : Nat × String × ParamAttributes) :
      (do return (r.sequence, (← x.metadata.string r.name, ParamAttributes.ofBits r.flags))) =
        (.ok e : Except Failure _) ↔ x.Says r e := by
    constructor
    · intro h
      obtain ⟨name, hname, h⟩ := seq_eq_ok_iff.mp h
      exact ⟨name, hname, (Except.ok.inj h).symm⟩
    · rintro ⟨name, hname, rfl⟩
      exact seq_eq_ok_iff.mpr ⟨name, hname, rfl⟩
  rw [declaredParams, seq_eq_ok_iff]
  simp only [mapM_eq_ok_iff, hsays]
  constructor
  · rintro ⟨named, hnamed, h⟩
    exact ⟨named, hnamed, Except.ok.inj h⟩
  · rintro ⟨named, hnamed, rfl⟩
    exact ⟨named, hnamed, rfl⟩

/-- The names of a method are collected if those can be read that stand for parameters. -/
theorem exists_declaredParams_iff {p : Nat} :
    (∃ declared, x.declaredParams p = .ok declared) ↔
      ∀ r ∈ x.paramRows p, r.sequence ≠ 0 → ∃ name, x.metadata.string r.name = .ok name := by
  simp only [declaredParams_eq_ok_iff]
  constructor
  · rintro ⟨_, named, hnamed, rfl⟩ r hr hsequence
    obtain ⟨e, -, name, hname, -⟩ :=
      exists_of_mem_left hnamed (List.mem_filter.mpr ⟨hr, decide_eq_true hsequence⟩)
    exact ⟨name, hname⟩
  · intro hnames
    obtain ⟨named, hnamed⟩ : ∃ named,
        List.Forall₂ x.Says ((x.paramRows p).filter (·.sequence ≠ 0)) named := by
      refine exists_forall₂ fun r hr => ?_
      obtain ⟨hmem, hsequence⟩ := List.mem_filter.mp hr
      obtain ⟨name, hname⟩ := hnames r hmem (of_decide_eq_true hsequence)
      exact ⟨_, name, hname, rfl⟩
    exact ⟨_, named, hnamed, rfl⟩

/-- **The names collected for a method are those of the last rows.** -/
theorem declaresParam_last? {p number : Nat}
    {declared : Grouping Nat (String × ParamAttributes)} (h : x.declaredParams p = .ok declared)
    (hnumber : number ≠ 0) :
    x.metadata.DeclaresParam (x.paramRows p) number
      ((declared.last? number).getD ("", .none)).1 ((declared.last? number).getD ("", .none)).2 := by
  obtain ⟨named, hnamed, rfl⟩ := declaredParams_eq_ok_iff.mp h
  have hrows : ((x.paramRows p).filter (·.sequence ≠ 0)).filter (·.sequence = number) =
      (x.paramRows p).filter (·.sequence = number) := by
    rw [List.filter_filter]
    refine List.filter_congr fun r _ => ?_
    by_cases hr : r.sequence = number
    · simp [hr, hnumber]
    · simp [hr]
  have hnumbered : List.Forall₂ x.Says ((x.paramRows p).filter (·.sequence = number))
      (named.filter (·.1 == number)) := by
    rw [← hrows]
    refine List.rel_filter ?_ hnamed
    rintro r _ ⟨name, -, rfl⟩
    simp
  have hlast : Option.Rel x.Says (lastNumbered (x.paramRows p) number)
      (named.filter (·.1 == number)).getLast? := rel_getLast? hnumbered
  rw [Grouping.last?_eq_getLast?, Grouping.get_ofList, List.getLast?_map]
  generalize hr : lastNumbered (x.paramRows p) number = row? at hlast
  generalize (named.filter (·.1 == number)).getLast? = said? at hlast
  cases hlast with
  | none => exact .missing hr
  | some hsays =>
      obtain ⟨name, hname, rfl⟩ := hsays
      exact .row hr hname

/-! ### Parameters -/

/-- The parameter with a number **is told** from its signature and from rows: it has the name that
they declare, or one made from the number, and the type of the signature, passed as they say if it
is passed by reference. -/
def HasParameter (x : Introspection) (scope : GenericScope) (rows : List ParamRow) (number : Nat)
    (p : ParamSig TypeSig) (d : Parameter) : Prop :=
  ∃ name attributes type, x.metadata.DeclaresParam rows number name attributes ∧
    x.index.resolve scope p.type = .ok type ∧
    d.name = (if name = "" then "arg" ++ toString number else name) ∧
    d.type = if p.byRef then .byRef type attributes.refKind else type

/-- A parameter is told in one way. -/
theorem HasParameter.unique {scope : GenericScope} {rows : List ParamRow} {number : Nat}
    {p : ParamSig TypeSig} {d d' : Parameter} (h : x.HasParameter scope rows number p d)
    (h' : x.HasParameter scope rows number p d') : d = d' := by
  obtain ⟨name, attributes, type, hdeclares, hresolve, hname, htype⟩ := h
  obtain ⟨name', attributes', type', hdeclares', hresolve', hname', htype'⟩ := h'
  obtain ⟨rfl, rfl⟩ := hdeclares.unique hdeclares'
  cases hresolve.symm.trans hresolve'
  rcases d with ⟨_, _⟩
  rcases d' with ⟨_, _⟩
  exact congrArg₂ Parameter.mk (hname.trans hname'.symm) (htype.trans htype'.symm)

/-- A parameter is told exactly if it can be numbered. -/
theorem parameter_eq_ok_iff {scope : GenericScope} {i position : Nat} {p : ParamSig TypeSig}
    {d : Parameter} {declared : Grouping Nat (String × ParamAttributes)}
    (hdeclared : x.declaredParams i = .ok declared) :
    x.parameter scope declared p position = .ok d ↔
      position + 1 ≤ maxParams ∧ x.HasParameter scope (x.paramRows i) (position + 1) p d := by
  have hdeclares : x.metadata.DeclaresParam (x.paramRows i) (position + 1) _ _ :=
    declaresParam_last? hdeclared (Nat.succ_ne_zero position)
  rw [parameter]
  generalize (declared.last? (position + 1)).getD ("", .none) = said at hdeclares ⊢
  rcases said with ⟨name, attributes⟩
  constructor
  · intro h
    split at h
    · cases h
    · rename_i hcount
      obtain ⟨type, htype, h⟩ := seq_eq_ok_iff.mp h
      cases h
      exact ⟨Nat.le_of_not_lt hcount, name, attributes, type, hdeclares, htype, rfl, rfl⟩
  · rintro ⟨hcount, name', attributes', type, hdeclares', htype, hname, hd⟩
    obtain ⟨rfl, rfl⟩ := hdeclares.unique hdeclares'
    rw [if_neg (Nat.not_lt.mpr hcount)]
    refine seq_eq_ok_iff.mpr ⟨type, htype, ?_⟩
    rcases d with ⟨_, _⟩
    exact congrArg Except.ok (congrArg₂ Parameter.mk hname.symm hd.symm)

/-! ### Methods -/

/-- What the generic parameters in the signature of a method are called. -/
def scopeOf (x : Introspection) (typeParams : Array String) (r : MethodDefRow)
    (s : MethodSig TypeSig) : GenericScope where
  typeParams := typeParams
  methodParams := (x.methodGenerics r.rid s.genericCount).toArray

/-- The method `d` **is told** from the row `r` at the position `p`, whose signature is `s`. -/
structure Loads (x : Introspection) (typeParams : Array String) (p : Nat) (r : MethodDefRow)
    (s : MethodSig TypeSig) (d : MethodDefinition) : Prop where
  signature : ∃ bytes, x.metadata.blob r.signature = .ok bytes ∧
    Signature.readMethod bytes = .ok s
  /-- Every row that stands for a parameter has a name that can be read, also if the signature has
  no such parameter. -/
  readable : ∀ row ∈ x.paramRows p, row.sequence ≠ 0 → ∃ name, x.metadata.string row.name = .ok name
  /-- Every parameter can be numbered. -/
  count : s.params.length ≤ maxParams
  /-- The parameters are the fixed ones of the signature, one after the other. -/
  parameters : List.Forall₂
    (fun e => x.HasParameter (x.scopeOf typeParams r s) (x.paramRows p) (e.2 + 1) e.1)
    s.params.zipIdx d.parameters
  returnType : x.returnType (x.scopeOf typeParams r s) s.ret = .ok d.returnType
  name : x.metadata.string r.name = .ok d.name
  attributes : d.attributes = x.attributes.get r.rid
  genericParameters : d.genericParameters = x.methodGenerics r.rid s.genericCount

/-- The parameters of a method are told one after the other. -/
theorem parameters_eq_ok_iff {scope : GenericScope} {i : Nat} {ps : List (ParamSig TypeSig)}
    {ds : List Parameter} {declared : Grouping Nat (String × ParamAttributes)}
    (hdeclared : x.declaredParams i = .ok declared) :
    (ps.zipIdx.mapM fun (p, k) => x.parameter scope declared p k) = .ok ds ↔
      ps.length ≤ maxParams ∧ List.Forall₂
        (fun e => x.HasParameter scope (x.paramRows i) (e.2 + 1) e.1) ps.zipIdx ds := by
  -- All positions can be numbered exactly if the last one can.
  have hcount : (∀ e ∈ ps.zipIdx, e.2 + 1 ≤ maxParams) ↔ ps.length ≤ maxParams := by
    constructor
    · intro h
      by_contra hlength
      have hlt : maxParams < ps.length := Nat.lt_of_not_le hlength
      have hlast : (ps[maxParams], maxParams) ∈ ps.zipIdx :=
        List.mem_zipIdx_iff_getElem?.mpr (List.getElem?_eq_getElem hlt)
      exact Nat.not_succ_le_self _ (h _ hlast)
    · intro hlength e he
      obtain ⟨hlt, -⟩ := List.getElem?_eq_some_iff.mp (List.mem_zipIdx_iff_getElem?.mp he)
      exact Nat.le_trans hlt hlength
  rw [mapM_eq_ok_iff, ← hcount, ← List.forall₂_and_left]
  simp only [parameter_eq_ok_iff hdeclared]

/-- **A method is told exactly if all of it can be read.** -/
theorem method_eq_ok_iff {typeParams : Array String} {p : Nat} {r : MethodDefRow}
    {d : MethodDefinition} :
    x.method typeParams p r = .ok d ↔ ∃ s, x.Loads typeParams p r s d := by
  constructor
  · intro h
    obtain ⟨bytes, hbytes, h⟩ := seq_eq_ok_iff.mp h
    obtain ⟨s, hs, h⟩ := seq_eq_ok_iff.mp h
    obtain ⟨declared, hdeclared, h⟩ := seq_eq_ok_iff.mp h
    obtain ⟨parameters, hparameters, h⟩ := seq_eq_ok_iff.mp h
    obtain ⟨returnType, hreturnType, h⟩ := seq_eq_ok_iff.mp h
    obtain ⟨name, hname, h⟩ := seq_eq_ok_iff.mp h
    cases h
    obtain ⟨hcount, hparameters⟩ := (parameters_eq_ok_iff hdeclared).mp hparameters
    exact ⟨s, ⟨bytes, hbytes, hs⟩, exists_declaredParams_iff.mp ⟨declared, hdeclared⟩, hcount,
      hparameters, hreturnType, hname, rfl, rfl⟩
  · rintro ⟨s, ⟨bytes, hbytes, hs⟩, hreadable, hcount, hparameters, hreturnType, hname, hattributes,
      hgenerics⟩
    obtain ⟨declared, hdeclared⟩ := exists_declaredParams_iff.mpr hreadable
    have hparameters := (parameters_eq_ok_iff hdeclared).mpr ⟨hcount, hparameters⟩
    refine seq_eq_ok_iff.mpr ⟨bytes, hbytes, seq_eq_ok_iff.mpr ⟨s, hs, ?_⟩⟩
    refine seq_eq_ok_iff.mpr ⟨declared, hdeclared, seq_eq_ok_iff.mpr ⟨_, hparameters, ?_⟩⟩
    refine seq_eq_ok_iff.mpr ⟨_, hreturnType, seq_eq_ok_iff.mpr ⟨_, hname, ?_⟩⟩
    rcases d with ⟨_, _, _, _, _⟩
    cases hattributes
    cases hgenerics
    rfl

end Introspection

end AliasStubs
