import AliasStubs.Proofs.Machine.Simulation

/-!
# How deeply the calls of the parser nest

At most 49 levels can be open, and a level takes at most three calls: of a type, of what is inside
the level, and of a method. So it would be if every call were counted. But behind a mark the parser
calls itself again inside the same level, and a run of marks may be of any length.

So the calls nest at most `148` deep beside one call for every byte that may be a mark, and this is
what the parser needs: from there on it never runs out of calls. No number of calls is enough for
every signature, however, since a run of pinned marks uses up any number of them before the type
behind it is reached. Such a type is within the levels, and is not refused.

## Main results

* `Parser.Simulated` and `Parser.simulated` : within the calls that the levels and the marks need,
  the parser comes to what the reader comes to.
* `Parser.readType_eq`, `Parser.readMethod_eq` : so whole signatures are read.
* `Parser.readType_pinnedRun_eq` : a run of `n` pinned marks takes `n + 2` calls.
* `Parser.nesting_le_levels_and_marks` : **the calls are bounded by the levels and the marks**, and
  not by the levels alone.
-/

namespace AliasStubs.Machine.Parser

open Signature (budget maxDepth pinned isModifier isMark skipMarks)

variable {α : Type} {data : ByteArray} {p : Parser} {bytes rest : List UInt8}
  {depth levels marks calls : Nat}

/-! ### The reader at a mark and behind it -/

/-- A mark of a pinned value is skipped before a type. -/
theorem type_pinned_cons (levels : Nat) (rest : List UInt8) :
    Signature.type (levels + 1) (pinned :: rest) = Signature.type (levels + 1) rest := by
  have hskip : skipMarks (pinned :: rest) = skipMarks rest := by rw [skipMarks, if_pos rfl]
  simp only [Signature.type, bind, EStateM.bind, hskip]

/-- A modifier is skipped as its token and the marks behind it. -/
theorem skipMarks_eq_bind {b : UInt8} (hb : isModifier b = true) (tail : List UInt8) :
    skipMarks (b :: tail) = (Compressed.token >>= fun _ => skipMarks) tail := by
  have hpin : b ≠ pinned := fun h => absurd (h ▸ hb) (by decide)
  rw [skipMarks, if_neg hpin, if_pos hb]
  simp only [bind, EStateM.bind]
  split <;> rename_i ht <;> rw [ht]

/-- Modifiers that are read are marks that are skipped. -/
theorem modifiersOnto_bind_skipMarks (done : List Token) :
    (Signature.modifiersOnto done >>= fun _ => skipMarks) = skipMarks := by
  funext bytes
  simp only [bind, EStateM.bind]
  fun_induction Signature.modifiersOnto done bytes with
  | case1 done => rfl
  | case2 done b tail hb t mid ht ih => rw [Signature.skipMarks_cons hb ht, ih]
  | case3 done b tail hb e mid ht =>
      rw [skipMarks_eq_bind hb]
      simp only [bind, EStateM.bind, ht]
  | case4 done b tail hb => rfl

/-- A modifier is skipped before a type, and so are the modifiers behind it. -/
theorem type_modifier_cons (levels : Nat) {b : UInt8} (hb : isModifier b = true)
    (tail : List UInt8) :
    Signature.type (levels + 1) (b :: tail) =
      (Compressed.token >>= fun _ =>
        Signature.modifiers >>= fun _ => Signature.type (levels + 1)) tail := by
  obtain ⟨behind, htype⟩ : ∃ behind : Unit → Decoder TypeSig,
      Signature.type (levels + 1) = skipMarks >>= behind := ⟨_, rfl⟩
  rw [htype]
  calc (skipMarks >>= behind) (b :: tail)
      = ((Compressed.token >>= fun _ => skipMarks) >>= behind) tail := by
        simp only [bind, EStateM.bind, skipMarks_eq_bind hb]
    _ = (Compressed.token >>= fun _ =>
          (Signature.modifiers >>= fun _ => skipMarks) >>= behind) tail := by
        rw [bind_assoc, Signature.modifiers, modifiersOnto_bind_skipMarks]
    _ = _ := by simp only [bind_assoc]

/-- A byte that is part of no mark starts the type. -/
theorem skipMarks_of_not {b : UInt8} (hb : isMark b = false) (rest : List UInt8) :
    skipMarks (b :: rest) = .ok () (b :: rest) :=
  Signature.skipMarks_append .nil hb rest

/-- A type without marks is its element code and what follows it. -/
theorem type_cons (levels : Nat) {b : UInt8} (hb : isMark b = false) (rest : List UInt8) :
    Signature.type (levels + 1) (b :: rest) =
      (match SimpleType.ofCode? b with
        | some t => pure (.simple t)
        | none =>
          match NominalKind.ofCode? b with
          | some kind => Compressed.token >>= fun d => pure (.nominal kind d)
          | none => Signature.constructed levels (Signature.type levels) b : Decoder TypeSig)
        rest := by
  have hskip := skipMarks_of_not hb rest
  have hnext : Decoder.next (b :: rest) = .ok b rest := rfl
  rw [Signature.type]
  exact (Reading.bind_of_eq_ok hskip _).trans (Reading.bind_of_eq_ok hnext _)

/-- A defined type is its element code and its token. -/
theorem type_nominal_cons (levels : Nat) (k : NominalKind) (rest : List UInt8) :
    Signature.type (levels + 1) (k.code :: rest) =
      (Compressed.token >>= fun d => pure (TypeSig.nominal k d)) rest := by
  have hmark : isMark k.code = false := by cases k <;> decide
  have hsimple : SimpleType.ofCode? k.code = none := by cases k <;> decide
  rw [type_cons levels hmark, hsimple, NominalKind.ofCode?_code]

/-- The kind and the token of a defined type. -/
def nominalParts : TypeSig → Decoder (NominalKind × Token)
  | .nominal kind definition => pure (kind, definition)
  | _ => Signature.refuse

/-- The definition that a generic instance is over is read like any type. -/
theorem genericBase_eq_type (levels : Nat) (k : NominalKind) (rest : List UInt8) :
    Signature.genericBase levels (k.code :: rest) =
      (Signature.type levels >>= nominalParts) (k.code :: rest) := by
  cases levels with
  | zero =>
      simp only [Signature.genericBase, bind, EStateM.bind, Decoder.peek,
        NominalKind.ofCode?_code]
      rfl
  | succ levels =>
      simp only [Signature.genericBase, bind, EStateM.bind, Decoder.peek, Decoder.next,
        NominalKind.ofCode?_code, type_nominal_cons]
      cases Compressed.token rest <;> rfl

/-! ### The parts that nest -/

/-- A level that is given back is the level from before. -/
theorem Agree.leaving {r : Parse α} {y : EStateM.Result Failure (List UInt8) α}
    (h : Agree data (depth + 1) bytes (r p) y) : Agree data depth bytes (leaving r p) y := by
  unfold Parser.leaving
  generalize hx : r p = x at h
  cases h with
  | ok stands level suffix =>
      simp only [sub_of_le (show 1 ≤ _ from level ▸ Nat.le_add_left 1 depth)]
      exact .ok ⟨stands.le, stands.drop⟩ (by simp [level]) suffix
  | @error e p rest stands level =>
      have hle : 1 ≤ p.depth := by omega
      simp only [sub_of_le hle]
      exact .error ⟨stands.le, stands.drop⟩ (by simp only; omega)

/-- What a generic instance is over is read as a type. -/
theorem genericBase_simulates {r : Parse TypeSig}
    (h : Simulates data depth marks r (Signature.type levels)) :
    Simulates data depth marks (genericBase data r) (Signature.genericBase levels) := by
  constructor
  intro p bytes hat hdepth hmarks
  cases bytes with
  | nil =>
      rw [genericBase, Stateful.bind_of_eq_error hat.peek_nil]
      exact .error hat hdepth
  | cons code rest =>
      rw [genericBase, Stateful.bind_of_eq_ok hat.peek]
      cases hk : NominalKind.ofCode? code with
      | none =>
          simp only [Signature.genericBase, bind, EStateM.bind, Decoder.peek, hk]
          exact .error hat hdepth
      | some k =>
          obtain rfl := NominalKind.code_of_ofCode? hk
          rw [genericBase_eq_type]
          refine (h.agree hat hdepth hmarks).bind fun {t q rest'} ht hat' hdepth' _ => ?_
          cases levels with
          | zero => cases ht
          | succ levels =>
              rw [type_nominal_cons] at ht
              obtain ⟨d, mid, -, ht⟩ := Reading.bind_eq_ok_iff.mp ht
              obtain ⟨rfl, rfl⟩ := Reading.pure_eq_ok_iff.mp ht
              exact .ok hat' hdepth' (List.suffix_refl _)

/-- What follows an element code is read, if types and methods are. -/
theorem constructed_simulates (hdata : Addressable data) {r : Parse TypeSig}
    {m : Parse (MethodSig TypeSig)} (h : Simulates data depth marks r (Signature.type levels))
    (hm : Simulates data depth marks m (Signature.method (Signature.type levels))) (code : UInt8) :
    Simulates data depth marks (constructed data r m code)
      (Signature.constructed levels (Signature.type levels) code) := by
  have huint : Simulates data depth marks (compressedUint data) Compressed.uint :=
    compressedUint_simulates hdata
  have hmodifiers : Simulates data depth marks (modifiers data) Signature.modifiers :=
    modifiers_simulates hdata
  -- The cases follow the element codes, an unknown one last.
  fun_cases Signature.constructed levels (Signature.type levels) code
  case case1 => exact hmodifiers.bind fun _ _ => h.map _
  case case2 => exact h.map _
  case case3 => exact huint.map _
  case case4 =>
    refine h.bind fun element _ => huint.bind fun rank _ => huint.bind fun sizes _ => ?_
    refine (skipTimes_simulates huint sizes).bind fun _ _ => huint.bind fun bounds _ => ?_
    exact (skipTimes_simulates huint bounds).map _
  case case5 =>
    refine (genericBase_simulates h).bind fun base _ => huint.bind fun count _ => ?_
    exact (timesOnto_simulates h [] count).map _
  case case6 => exact hm.map _
  case case7 => exact hmodifiers.bind fun _ _ => h.map _
  case case8 => exact huint.map _
  case case9 =>
    unfold constructed
    split <;> first | exact .throw _ | exact absurd rfl ‹_›

/-! ### A call and the calls inside it -/

/-- Within the calls that the levels and the marks need, the parser comes to what the reader comes
to. -/
structure Simulated (data : ByteArray) (calls : Nat) : Prop where
  type {levels depth marks : Nat} (hdepth : depth + levels = budget)
    (hcalls : 3 * levels + 1 + marks ≤ calls) :
    Simulates data depth marks (Parser.type data calls) (Signature.type levels)
  typeInner {levels depth marks : Nat} (hdepth : depth + levels = budget)
    (hcalls : 3 * levels + 3 + marks ≤ calls) :
    Simulates data depth marks (Parser.typeInner data calls) (Signature.type (levels + 1))
  method {levels depth marks : Nat} (hdepth : depth + levels = budget)
    (hcalls : 3 * levels + 2 + marks ≤ calls) :
    Simulates data depth marks (Parser.method data calls)
      (Signature.method (Signature.type levels))

/-- The next level is counted before it is tried. -/
theorem type_apply {p : Parser} (hword : p.depth + 1 < Word.word64.bound) (calls : Nat) :
    Parser.type data (calls + 1) p =
      (if maxDepth ≤ p.depth + 1 then throw (.failure (.recursionLimit maxDepth))
        else leaving (typeInner data calls) : Parse TypeSig) { p with depth := p.depth + 1 } := by
  simp only [Parser.type, Stateful.get_bind_apply, Word.add_of_lt hword, Stateful.liftM_ok,
    pure_bind, Stateful.set_bind_apply]
  split <;> rfl

/-- **Where no level is left, a type is refused**, and the level that was tried stays open. -/
theorem type_refused_simulates (hlimit : maxDepth ≤ depth + 1)
    (hword : depth + 1 < Word.word64.bound) (calls : Nat) :
    Simulates data depth marks (Parser.type data (calls + 1)) (Signature.type 0) := by
  constructor
  intro p bytes hat hp _
  rw [type_apply (hp ▸ hword), hp, if_pos hlimit]
  exact .error ⟨hat.le, hat.drop⟩ rfl

/-- A type takes a level and the call inside it. -/
theorem Simulated.type_succ (ih : Simulated data calls) (hdepth : depth + levels = budget)
    (hcalls : 3 * levels + 1 + marks ≤ calls + 1) :
    Simulates data depth marks (Parser.type data (calls + 1)) (Signature.type levels) := by
  have hbudget : depth + levels = 49 := hdepth
  have hword : depth + 1 < Word.word64.bound := by
    rw [Word.bound_word64]
    omega
  cases levels with
  | zero => exact type_refused_simulates (by change 50 ≤ depth + 1; omega) hword calls
  | succ levels =>
      constructor
      intro p bytes hat hp hmarks
      have hlimit : ¬ maxDepth ≤ depth + 1 := by
        change ¬ 50 ≤ depth + 1
        omega
      rw [type_apply (hp ▸ hword), hp, if_neg hlimit]
      refine Agree.leaving ?_
      have hinner : Simulates data (depth + 1) marks (Parser.typeInner data calls)
          (Signature.type (levels + 1)) := by
        refine ih.typeInner ?_ (by omega)
        change depth + 1 + levels = 49
        omega
      exact hinner.agree ⟨hat.le, hat.drop⟩ rfl hmarks

/-- What is inside a level takes the types and methods of one level less, and behind a mark a call
for the same level. -/
theorem Simulated.typeInner_succ (hdata : Addressable data) (ih : Simulated data calls)
    (hdepth : depth + levels = budget) (hcalls : 3 * levels + 3 + marks ≤ calls + 1) :
    Simulates data depth marks (Parser.typeInner data (calls + 1))
      (Signature.type (levels + 1)) := by
  constructor
  intro p bytes hat hp hmarks
  cases bytes with
  | nil =>
      rw [Parser.typeInner, Stateful.bind_of_eq_error (hat.readByte_nil hdata)]
      have hread : Signature.type (levels + 1) [] = .error .outOfBounds [] := by
        simp only [Signature.type, bind, EStateM.bind, skipMarks, Decoder.next]
      rw [hread]
      exact .error hat hp
  | cons b rest =>
      rw [Parser.typeInner, Stateful.bind_of_eq_ok (hat.readByte hdata)]
      refine Agree.of_suffix ?_ (List.suffix_cons b rest)
      by_cases hmark : isMark b = true
      · -- The mark pays for the call behind it.
        obtain ⟨marks, rfl⟩ : ∃ n, marks = n + 1 := by
          rw [markCount, List.countP_cons_of_pos hmark] at hmarks
          exact Nat.exists_eq_add_of_le' (Nat.le_trans (Nat.le_add_left _ _) hmarks)
        have hrest : markCount rest ≤ marks := by
          rw [markCount, List.countP_cons_of_pos hmark] at hmarks
          exact Nat.le_of_succ_le_succ hmarks
        have hinner : Simulates data depth marks (Parser.typeInner data calls)
            (Signature.type (levels + 1)) := ih.typeInner hdepth (by omega)
        by_cases hpin : b = pinned
        · rw [if_pos hpin, hpin, type_pinned_cons]
          exact hinner.agree hat.next hp hrest
        · have hmod : isModifier b = true := by simpa [isMark, hpin] using hmark
          rw [if_neg hpin, if_pos hmod, type_modifier_cons levels hmod]
          refine Simulates.agree ?_ hat.next hp hrest
          exact (compressedToken_simulates hdata).bind fun _ _ =>
            (modifiers_simulates hdata).bind fun _ _ => hinner
      · have hmark : isMark b = false := Bool.eq_false_iff.mpr hmark
        obtain ⟨hpin, hmod⟩ : b ≠ pinned ∧ isModifier b = false := by
          simpa [isMark] using hmark
        have hrest : markCount rest ≤ marks := by
          refine Nat.le_trans (markCount_le_of_suffix ?_) hmarks
          exact List.suffix_cons b rest
        rw [if_neg hpin, if_neg (by simp [hmod]), type_cons levels hmark]
        cases SimpleType.ofCode? b with
        | some t => exact (Simulates.pure _).agree hat.next hp hrest
        | none =>
            cases NominalKind.ofCode? b with
            | some kind => exact ((compressedToken_simulates hdata).map _).agree hat.next hp hrest
            | none =>
                have htype : Simulates data depth marks (Parser.type data calls)
                    (Signature.type levels) := ih.type hdepth (by omega)
                have hmethod : Simulates data depth marks (Parser.method data calls)
                    (Signature.method (Signature.type levels)) := ih.method hdepth (by omega)
                exact (constructed_simulates hdata htype hmethod b).agree hat.next hp hrest

/-- **Within the calls that the levels and the marks need, the parser comes to what the reader comes
to.** The induction is on the calls, each of which pays for the one inside it. -/
theorem simulated (hdata : Addressable data) (calls : Nat) : Simulated data calls := by
  induction calls with
  | zero =>
      refine ⟨fun _ hcalls => ?_, fun _ hcalls => ?_, fun _ hcalls => ?_⟩ <;>
        exact absurd hcalls (by omega)
  | succ calls ih =>
      refine ⟨ih.type_succ, ih.typeInner_succ hdata, fun hdepth hcalls => ?_⟩
      exact methodOf_simulates hdata (ih.type hdepth (by omega))

/-! ### Whole signatures -/

/-- A parser that agrees with a decoder from the start comes to the result of its session. -/
theorem startingAt_eq {r : Parse α} {d : (levels : Nat) → Decoder α}
    (h : Simulates data 0 (markCount data.data.toList) r (d budget)) :
    r.startingAt start = lift ((Signature.Session.start data).read d).1 := by
  have hagree := h.agree (start_at data) rfl (Nat.le_refl _)
  rw [Signature.Session.read_start_fst, Stateful.startingAt]
  generalize r start = x at hagree
  generalize d budget data.data.toList = y at hagree
  cases hagree <;> rfl

/-- A type is read within the calls that its levels and its marks need. -/
theorem readType_eq (hdata : Addressable data)
    (hcalls : 3 * budget + 1 + markCount data.data.toList ≤ calls) :
    readType data calls = lift (Signature.readType data) :=
  startingAt_eq ((simulated hdata calls).type rfl hcalls)

/-- A method is read within one call more. -/
theorem readMethod_eq (hdata : Addressable data)
    (hcalls : 3 * budget + 2 + markCount data.data.toList ≤ calls) :
    readMethod data calls = lift (Signature.readMethod data) :=
  startingAt_eq (d := fun levels => Signature.method (Signature.type levels))
    ((simulated hdata calls).method rfl hcalls)

/-- A run of marks of pinned values and a type behind it. -/
def pinnedRun (n : Nat) : ByteArray :=
  ⟨(List.replicate n pinned ++ [SimpleType.code .i4]).toArray⟩

theorem toList_pinnedRun (n : Nat) :
    (pinnedRun n).data.toList = List.replicate n pinned ++ [SimpleType.code .i4] :=
  rfl

theorem size_pinnedRun (n : Nat) : (pinnedRun n).size = n + 1 := by
  rw [← ByteArray.size_data, ← Array.length_toList, toList_pinnedRun, List.length_append,
    List.length_replicate]
  rfl

/-- The type behind a run of pinned marks is read, however long the run. -/
theorem readType_pinnedRun (n : Nat) : Signature.readType (pinnedRun n) = .ok (.simple .i4) := by
  have hread : Signature.type budget (pinnedRun n).data.toList = .ok (.simple .i4) [] := by
    rw [toList_pinnedRun]
    induction n with
    | zero => exact type_cons 48 (by decide) []
    | succ n ih =>
        rw [List.replicate_succ, List.cons_append]
        exact (type_pinned_cons 48 _).trans ih
  change ((Signature.Session.start _).read _).1 = _
  rw [Signature.Session.read_start_fst, hread]

/-- Inside a level, a run of `n` pinned marks takes `n + 1` calls. -/
theorem typeInner_pinnedRun (hdata : Addressable data) {n : Nat}
    (hat : At data p (List.replicate n pinned ++ [SimpleType.code .i4])) (calls : Nat) :
    ∃ q, q.depth = p.depth ∧ typeInner data calls p =
      if n + 1 ≤ calls then .ok (.simple .i4) q else .error .exhausted q := by
  induction n generalizing p calls with
  | zero =>
      cases calls with
      | zero => exact ⟨p, rfl, rfl⟩
      | succ calls =>
          refine ⟨{ p with position := p.position + 1 }, rfl, ?_⟩
          rw [typeInner, Stateful.bind_of_eq_ok (hat.readByte hdata),
            if_pos (Nat.le_add_left 1 calls)]
          rfl
  | succ n ih =>
      cases calls with
      | zero => exact ⟨p, rfl, rfl⟩
      | succ calls =>
          obtain ⟨q, hq, hcalls⟩ := ih hat.next calls
          refine ⟨q, hq, ?_⟩
          rw [typeInner, Stateful.bind_of_eq_ok (hat.readByte hdata), if_pos rfl, hcalls]
          simp only [Nat.add_le_add_iff_right]

/-- **A run of `n` pinned marks takes `n + 2` calls**, neither more nor less. -/
theorem readType_pinnedRun_eq {n : Nat} (hdata : Addressable (pinnedRun n)) (calls : Nat) :
    readType (pinnedRun n) calls =
      if n + 2 ≤ calls then .ok (.simple .i4) else .error .exhausted := by
  cases calls with
  | zero => rfl
  | succ calls =>
      have hat : At (pinnedRun n) ⟨0, 1⟩ (List.replicate n pinned ++ [SimpleType.code .i4]) :=
        ⟨Nat.zero_le _, rfl⟩
      obtain ⟨q, hq, hinner⟩ := typeInner_pinnedRun hdata hat calls
      have hdepth : sub q.depth 1 = .ok 0 := by rw [hq]; rfl
      have htype : type (pinnedRun n) (calls + 1) start =
          leaving (typeInner (pinnedRun n) calls) ⟨0, 1⟩ := by
        rw [type]
        rfl
      rw [readType, Stateful.startingAt, htype, leaving, hinner]
      by_cases hcalls : n + 1 ≤ calls
      · simp only [if_pos hcalls, hdepth, if_pos (Nat.succ_le_succ hcalls)]
      · simp only [if_neg hcalls, if_neg (mt Nat.le_of_succ_le_succ hcalls)]

/-- **The calls are bounded by the levels and the marks**, and not by the levels alone. Within three
calls for every level, one for every byte that may be a mark, and one or two to begin with, every
type and every method is read to the result that the reader gives, a refusal for nesting too deeply
included. But a type behind a run of `n` pinned marks, which is never refused, takes `n + 2`
calls. -/
theorem nesting_le_levels_and_marks (data : ByteArray) (calls : Nat) (hdata : Addressable data) :
    (3 * budget + 1 + markCount data.data.toList ≤ calls →
      readType data calls = lift (Signature.readType data)) ∧
    (3 * budget + 2 + markCount data.data.toList ≤ calls →
      readMethod data calls = lift (Signature.readMethod data)) ∧
    ∀ n : Nat, data = pinnedRun n → Signature.readType data = .ok (.simple .i4) ∧
      readType data calls = if n + 2 ≤ calls then .ok (.simple .i4) else .error .exhausted := by
  refine ⟨readType_eq hdata, readMethod_eq hdata, ?_⟩
  rintro n rfl
  exact ⟨readType_pinnedRun n, readType_pinnedRun_eq hdata calls⟩

/-- A run of a thousand pinned marks is read, and takes more calls than the levels account for. -/
theorem nesting_pinnedRun_thousand :
    Addressable (pinnedRun 1000) ∧
      Signature.readType (pinnedRun 1000) = .ok (.simple .i4) ∧
      readType (pinnedRun 1000) (4 * maxDepth) = .error .exhausted ∧
      readType (pinnedRun 1000) (3 * budget + 1 + 1000) = .ok (.simple .i4) := by
  have hdata : Addressable (pinnedRun 1000) := by
    rw [Addressable, size_pinnedRun]
    decide
  have hmarks : markCount (pinnedRun 1000).data.toList = 1000 := by
    rw [toList_pinnedRun, markCount, List.countP_append, List.countP_replicate]
    rfl
  obtain ⟨-, -, hshort⟩ := nesting_le_levels_and_marks (pinnedRun 1000) (4 * maxDepth) hdata
  obtain ⟨henough, -⟩ :=
    nesting_le_levels_and_marks (pinnedRun 1000) (3 * budget + 1 + 1000) hdata
  obtain ⟨hread, hexhausted⟩ := hshort 1000 rfl
  have htype := henough (Nat.le_of_eq (by rw [hmarks]))
  exact ⟨hdata, hread, hexhausted, by rw [htype, hread]; rfl⟩

end AliasStubs.Machine.Parser
