import AliasStubs.Proofs.Machine.Nesting

/-!
# One parser for several signatures

A parser can be asked for one signature after the other. It goes on where the last one stopped, also
after a failure, and it keeps its counter of levels. Every level that is taken is given back on the
way out, by results and by failures alike, with one exception: the refusal to go deeper leaves the
level open that it was about to take.

So the counter is never below zero, and between two signatures it says how often the parser has
refused. From there on the parser works like a fresh one whose limit is lower by that number. As
long as it has refused nothing, it works exactly like a fresh one on the bytes that are left.

## Main definitions

* `Signature.Request`, `Signature.Answer` : what a parser is asked for, and what it gives.
* `Signature.Request.fresh` : what a fresh parser with a given limit comes to.
* `Parser.ask`, `Parser.askAll` : one call, and a sequence of calls on the same parser.

## Main results

* `Parser.ask_follows` : **a call** keeps a parser and a session of the reader together.
* `Parser.askAll_follows` : **a sequence of calls** does.
* `Parser.depth_counts_refusals` : the counter is the number of refusals, and every call comes to
  what a fresh parser with a limit lowered by it comes to.
-/

namespace AliasStubs

/-! ### What is asked for -/

namespace Signature

/-- What a parser can be asked for. -/
inductive Request
  /-- The signature of a method. -/
  | method
  /-- The signature of a type. -/
  | type
  deriving DecidableEq, Repr

/-- A signature that was asked for. -/
inductive Answer
  | method (signature : MethodSig TypeSig)
  | type (signature : TypeSig)

namespace Request

/-- The reader of what is asked for, within a number of levels. -/
def decoder (levels : Nat) : Request → Decoder Answer
  | method => do return .method (← Signature.method (Signature.type levels))
  | type => do return .type (← Signature.type levels)

/-- What a **fresh** parser comes to that refuses the level `limit`. -/
def fresh (limit : Nat) (bytes : List UInt8) (r : Request) : Except Failure Answer :=
  (Session.read ⟨bytes, 0⟩ fun _ => r.decoder (limit - 1)).1

end Request

namespace Session

/-- Asks a session for a signature. -/
def answer (s : Session) : Request → Except Failure Answer × Session
  | .method => (s.readMethod.1.map .method, s.readMethod.2)
  | .type => (s.readType.1.map .type, s.readType.2)

/-- Asks a session for one signature after the other, whatever comes of them. -/
def answers (s : Session) : List Request → List (Except Failure Answer) × Session
  | [] => ([], s)
  | r :: rs =>
    let (a, s') := s.answer r
    let (as, s'') := s'.answers rs
    (a :: as, s'')

end Session

end Signature

namespace Machine.Parser

open Signature (Request Answer Session budget maxDepth)

variable {data : ByteArray} {p q : Parser} {s : Session} {depth marks calls : Nat}

/-- Reads what is asked for, within as many nested calls as are granted. -/
def answer (data : ByteArray) (calls : Nat) : Request → Parse Answer
  | .method => do return .method (← method data calls)
  | .type => do return .type (← type data calls)

/-- Asks a parser for a signature: what comes of it, and where the parser stands then. -/
def ask (data : ByteArray) (calls : Nat) (r : Request) (p : Parser) : Checked Answer × Parser :=
  match answer data calls r p with
  | .ok a q => (.ok a, q)
  | .error stop q => (.error stop, q)

/-- Asks a parser for one signature after the other, whatever comes of them. -/
def askAll (data : ByteArray) (calls : Nat) :
    List Request → Parser → List (Checked Answer) × Parser
  | [], p => ([], p)
  | r :: rs, p =>
    let (a, q) := ask data calls r p
    let (as, q') := askAll data calls rs q
    (a :: as, q')

/-- Whether a parser has refused to go deeper. -/
def isRefusal : Checked Answer → Bool
  | .error (.failure (.recursionLimit _)) => true
  | _ => false

/-- The bytes that are left to a parser. -/
def remaining (data : ByteArray) (p : Parser) : ByteArray :=
  data.extract p.position data.size

/-- The parser that stands as far behind a position as this one stands behind the start. -/
def movedBy (p : Parser) (position : Nat) : Parser :=
  { p with position := position + p.position }

/-! ### Sessions of the reader -/

/-- A session gives what its reader comes to. -/
theorem session_answer_eq (s : Session) (r : Request) :
    s.answer r = match r.decoder (budget - s.refused) s.rest with
      | .ok a rest => (.ok a, ⟨rest, s.refused⟩)
      | .error e rest => (.error e, ⟨rest, s.refused + levelsLeft e⟩) := by
  have hread {α : Type} (f : α → Answer) (d : Nat → Decoder α) :
      ((s.read d).1.map f, (s.read d).2) =
        match (d (budget - s.refused) >>= fun a => pure (f a)) s.rest with
        | .ok a rest => (.ok a, ⟨rest, s.refused⟩)
        | .error e rest => (.error e, ⟨rest, s.refused + levelsLeft e⟩) := by
    simp only [Session.read, bind, EStateM.bind]
    rcases d (budget - s.refused) s.rest with ⟨a, rest⟩ | ⟨e, rest⟩
    · rfl
    · cases e <;> rfl
  cases r with
  | method => exact hread .method fun levels => Signature.method (Signature.type levels)
  | type => exact hread .type Signature.type

/-- What a fresh parser comes to is what its reader comes to. -/
theorem fresh_eq (limit : Nat) (bytes : List UInt8) (r : Request) :
    r.fresh limit bytes = match r.decoder (limit - 1) bytes with
      | .ok a _ => .ok a
      | .error e _ => .error e := by
  simp only [Request.fresh, Session.read]
  rcases r.decoder (limit - 1) bytes with ⟨a, rest⟩ | ⟨e, rest⟩
  · rfl
  · cases e <;> rfl

/-- A session gives what a fresh parser with a lower limit comes to. -/
theorem session_answer_fst (s : Session) (r : Request) :
    (s.answer r).1 = r.fresh (maxDepth - s.refused) s.rest := by
  have hlevels : maxDepth - s.refused - 1 = budget - s.refused := Nat.sub_right_comm ..
  rw [session_answer_eq, fresh_eq, hlevels]
  rcases r.decoder (budget - s.refused) s.rest with ⟨a, rest⟩ | ⟨e, rest⟩ <;> rfl

/-- A session counts its refusals. -/
theorem session_answer_refused (s : Session) (r : Request) :
    (s.answer r).2.refused =
      s.refused + if isRefusal (lift (s.answer r).1) then 1 else 0 := by
  rw [session_answer_eq]
  rcases r.decoder (budget - s.refused) s.rest with ⟨a, rest⟩ | ⟨e, rest⟩
  · rfl
  · cases e <;> rfl

/-! ### One call -/

/-- A type is read within the levels that are left, which may be none. -/
theorem type_simulates (hdata : Addressable data) (hword : depth + 1 < Word.word64.bound)
    (hcalls : 3 * budget + 1 + marks ≤ calls) :
    Simulates data depth marks (type data calls) (Signature.type (budget - depth)) := by
  by_cases hdepth : depth ≤ budget
  · exact (simulated hdata calls).type (Nat.add_sub_cancel' hdepth) (by omega)
  · obtain ⟨calls, rfl⟩ := Nat.exists_eq_add_of_le' (show 1 ≤ calls by omega)
    have hlimit : maxDepth ≤ depth + 1 := by
      change 49 + 1 ≤ depth + 1
      exact Nat.succ_le_succ (Nat.le_of_not_le hdepth)
    rw [Nat.sub_eq_zero_of_le (Nat.le_of_not_le hdepth)]
    exact type_refused_simulates hlimit hword calls

/-- What is asked for is read within the levels that are left. -/
theorem answer_simulates (hdata : Addressable data) (hword : depth + 1 < Word.word64.bound)
    (hcalls : 3 * budget + 2 + marks ≤ calls) (r : Request) :
    Simulates data depth marks (answer data calls r) (r.decoder (budget - depth)) := by
  cases r with
  | type => exact (type_simulates hdata hword (by omega)).map _
  | method =>
      obtain ⟨calls, rfl⟩ := Nat.exists_eq_add_of_le' (show 1 ≤ calls by omega)
      have htype := type_simulates hdata hword (show 3 * budget + 1 + marks ≤ calls by omega)
      exact (methodOf_simulates hdata htype).map _

/-- A parser **follows** a session: it stands in front of the bytes that are left to the session,
and its counter says how often the session has refused. -/
structure Follows (data : ByteArray) (p : Parser) (s : Session) : Prop where
  stands : At data p s.rest
  level : p.depth = s.refused

theorem start_follows (data : ByteArray) : Follows data start (Session.start data) :=
  ⟨start_at data, rfl⟩

/-- What is left of the data holds no more marks than all of it. -/
theorem At.markCount_le {bytes : List UInt8} (h : At data p bytes) :
    markCount bytes ≤ markCount data.data.toList :=
  markCount_le_of_suffix (h.drop ▸ List.drop_suffix _ _)

section Calls

variable (hdata : Addressable data)
  (hcalls : 3 * budget + 2 + markCount data.data.toList ≤ calls)
include hdata hcalls

/-- **A call** gives what the session gives, and the parser follows the session behind it. -/
theorem ask_follows (h : Follows data p s) (hword : p.depth + 1 < Word.word64.bound)
    (r : Request) :
    (ask data calls r p).1 = lift (s.answer r).1 ∧
      Follows data (ask data calls r p).2 (s.answer r).2 := by
  have hagree := (answer_simulates hdata hword hcalls r).agree h.stands rfl
    h.stands.markCount_le
  rw [ask, session_answer_eq, ← h.level]
  generalize answer data calls r p = x at hagree
  generalize r.decoder (budget - p.depth) s.rest = y at hagree
  cases hagree with
  | ok stands level => exact ⟨rfl, stands, level⟩
  | error stands level => exact ⟨rfl, stands, level⟩

/-- A call leaves a level open exactly if it refuses. -/
theorem depth_ask (h : Follows data p s) (hword : p.depth + 1 < Word.word64.bound) (r : Request) :
    (ask data calls r p).2.depth =
      p.depth + if isRefusal (ask data calls r p).1 then 1 else 0 := by
  obtain ⟨hanswer, hfollows⟩ := ask_follows hdata hcalls h hword r
  rw [hfollows.level, session_answer_refused, hanswer, h.level]

/-! ### Sequences of calls -/

/-- **A sequence of calls** gives what the session gives, and the parser follows the session. The
counter is raised by every refusal. -/
theorem askAll_follows (rs : List Request) (h : Follows data p s)
    (hword : p.depth + (askAll data calls rs p).1.countP isRefusal + 1 < Word.word64.bound) :
    (askAll data calls rs p).1 = (s.answers rs).1.map lift ∧
      Follows data (askAll data calls rs p).2 (s.answers rs).2 ∧
      (askAll data calls rs p).2.depth =
        p.depth + (askAll data calls rs p).1.countP isRefusal := by
  induction rs generalizing p s with
  | nil => exact ⟨rfl, h, rfl⟩
  | cons r rs ih =>
      have hall : askAll data calls (r :: rs) p =
          ((ask data calls r p).1 :: (askAll data calls rs (ask data calls r p).2).1,
            (askAll data calls rs (ask data calls r p).2).2) := rfl
      have hanswers : s.answers (r :: rs) =
          ((s.answer r).1 :: ((s.answer r).2.answers rs).1, ((s.answer r).2.answers rs).2) := rfl
      rw [hall, List.countP_cons] at hword
      have hfirst : p.depth + 1 < Word.word64.bound := by omega
      obtain ⟨hanswer, hfollows⟩ := ask_follows hdata hcalls h hfirst r
      have hdepth := depth_ask hdata hcalls h hfirst r
      obtain ⟨hrest, hlast, hcount⟩ := ih hfollows (by omega)
      rw [hall, hanswers]
      refine ⟨?_, hlast, ?_⟩
      · rw [hanswer, hrest, List.map_cons]
      · rw [hcount, hdepth, List.countP_cons]
        omega

end Calls

/-! ### Fresh parsers -/

/-- A fresh parser on the bytes that are left stands in front of them. -/
theorem start_at_remaining {bytes : List UInt8} (h : At data p bytes) :
    At (remaining data p) start bytes where
  le := Nat.zero_le _
  drop := by
    rw [← h.drop, remaining, ByteArray.data_extract, Array.toList_extract, List.extract_eq_take_drop]
    refine List.take_of_length_le (Nat.le_of_eq ?_)
    rw [List.length_drop, Array.length_toList, ByteArray.size_data]

/-- How far a parser has come is told by what is left to it. -/
theorem At.position_add_length {bytes : List UInt8} (h : At data p bytes) :
    p.position + bytes.length = data.size := by
  have hle := h.le
  have hlength := congrArg List.length h.drop
  rw [List.length_drop, Array.length_toList, ByteArray.size_data] at hlength
  omega

/-- Two parsers in front of the same bytes, one of them fresh on what is left to the other, stay as
far apart as they were. -/
theorem eq_movedBy {bytes rest : List UInt8} {q' : Parser} (h : At data p bytes)
    (hq : At data q rest) (hq' : At (remaining data p) q' rest) (hlevel : q.depth = q'.depth) :
    q = q'.movedBy p.position := by
  have hstart := (start_at_remaining h).position_add_length
  have hp := h.position_add_length
  have hend := hq.position_add_length
  have hend' := hq'.position_add_length
  rcases q with ⟨position, depth⟩
  rcases q' with ⟨position', depth'⟩
  obtain rfl : depth = depth' := hlevel
  simp only [movedBy, mk.injEq, and_true]
  change 0 + bytes.length = _ at hstart
  change position + rest.length = _ at hend
  change position' + rest.length = _ at hend'
  omega

section Calls

variable (hdata : Addressable data)
  (hcalls : 3 * budget + 2 + markCount data.data.toList ≤ calls)
include hdata hcalls

/-- **A parser that has refused nothing works like a fresh one** on the bytes that are left. -/
theorem ask_eq_start (h : Follows data p s) (hdepth : p.depth = 0) (r : Request) :
    ask data calls r p =
      ((ask (remaining data p) calls r start).1,
        (ask (remaining data p) calls r start).2.movedBy p.position) := by
  have hmarks : markCount (remaining data p).data.toList ≤ markCount data.data.toList := by
    have hleft : (remaining data p).data.toList = s.rest := (start_at_remaining h.stands).drop
    rw [hleft]
    exact h.stands.markCount_le
  have hremaining : Addressable (remaining data p) := hdata.extract _ _
  have hstart : Follows (remaining data p) start ⟨s.rest, 0⟩ := ⟨start_at_remaining h.stands, rfl⟩
  have hword : (0 : Nat) + 1 < Word.word64.bound := by decide
  obtain ⟨hanswer, hfollows⟩ := ask_follows hdata hcalls h (hdepth ▸ hword) r
  obtain ⟨hanswer', hfollows'⟩ :=
    ask_follows hremaining (Nat.le_trans (Nat.add_le_add_left hmarks _) hcalls) hstart hword r
  have hs : s = ⟨s.rest, 0⟩ := by
    rw [← hdepth, h.level]
  rw [hs] at hanswer hfollows
  refine Prod.ext (hanswer.trans hanswer'.symm) ?_
  refine eq_movedBy h.stands hfollows.stands hfollows'.stands ?_
  rw [hfollows.level, hfollows'.level]

end Calls

/-! ### Main result -/

/-- **The counter of levels counts refusals.** After any sequence of calls on one parser it is the
number of calls that were refused for nesting too deeply, since all others give back the levels that
they take, and no call ever takes it below zero. The next call comes to what a fresh parser with a
limit lowered by this number comes to on the bytes that are left. So while nothing has been refused,
every call works exactly like one on a fresh parser, also behind calls that have failed otherwise.

The calls are those of a session of the reader. As the counter is a word, fewer refusals are
considered than a word can count. -/
theorem depth_counts_refusals {data : ByteArray} {calls : Nat} {done : List Request}
    {results : List (Checked Answer)} {p : Parser} (hdata : Addressable data)
    (hcalls : 3 * budget + 2 + markCount data.data.toList ≤ calls)
    (hrun : askAll data calls done start = (results, p))
    (hword : results.countP isRefusal + 1 < Word.word64.bound) :
    p.depth = results.countP isRefusal ∧
      results = ((Session.start data).answers done).1.map lift ∧
      ∀ next : Request,
        (ask data calls next p).1 =
          lift (next.fresh (maxDepth - p.depth) (data.data.toList.drop p.position)) ∧
        (results.countP isRefusal = 0 → ask data calls next p =
          ((ask (remaining data p) calls next start).1,
            (ask (remaining data p) calls next start).2.movedBy p.position)) := by
  have hstart : start.depth = 0 := rfl
  have hresults : (askAll data calls done start).1 = results := by rw [hrun]
  have hp : (askAll data calls done start).2 = p := by rw [hrun]
  obtain ⟨hanswers, hfollows, hdepth⟩ := askAll_follows hdata hcalls done (start_follows data)
    (by rw [hresults, hstart]; omega)
  rw [hp, hresults, hstart, Nat.zero_add] at hdepth
  rw [hp] at hfollows
  rw [hresults] at hanswers
  refine ⟨hdepth, hanswers, fun next => ⟨?_, fun hnone => ?_⟩⟩
  · rw [(ask_follows hdata hcalls hfollows (hdepth ▸ hword) next).1, session_answer_fst,
      hfollows.level, hfollows.stands.drop]
  · exact ask_eq_start hdata hcalls hfollows (hdepth.trans hnone) next

/-- Data of vectors of vectors, fifty deep, around a number. -/
def fiftyVectors : ByteArray :=
  ⟨(List.replicate 50 (0x1D : UInt8) ++ [0x08]).toArray⟩

/-- Fifty vectors are refused in front of the last one, and one level stays open. The next call reads
what is left, a vector of numbers, with a limit that is lower by one. -/
theorem depth_counts_refusals_fiftyVectors :
    ∃ (results : List (Checked Answer)) (p : Parser),
      askAll fiftyVectors 200 [.type] start = (results, p) ∧
      results.map isRefusal = [true] ∧
      p.depth = 1 ∧
      fiftyVectors.data.toList.drop p.position = [0x1D, 0x08] ∧
      (ask fiftyVectors 200 .type p).1 = lift (Request.type.fresh 49 [0x1D, 0x08]) := by
  have hresults : (askAll fiftyVectors 200 [.type] start).1.map isRefusal = [true] := by
    decide +kernel
  have hcount : (askAll fiftyVectors 200 [.type] start).1.countP isRefusal = 1 := by
    decide +kernel
  have hleft : fiftyVectors.data.toList.drop
      (askAll fiftyVectors 200 [.type] start).2.position = [0x1D, 0x08] := by
    decide +kernel
  have hdata : Addressable fiftyVectors := show 51 < 1 <<< 63 by decide
  obtain ⟨hdepth, -, hnext⟩ := depth_counts_refusals hdata (by decide +kernel)
    (Prod.eta (askAll fiftyVectors 200 [.type] start)).symm (by rw [hcount]; decide)
  refine ⟨_, _, (Prod.eta _).symm, hresults, hdepth.trans hcount, hleft, ?_⟩
  have hlast := (hnext .type).1
  rwa [hleft, hdepth, hcount] at hlast

end Machine.Parser

end AliasStubs
