import AliasStubs.Metadata.Layout
import AliasStubs.Proofs.Machine.Bytes
import Mathlib.Data.Nat.Bitwise

/-!
# The layout of a table stream on a machine

A machine keeps the row counts in an array with one slot for each table, and the widths of the coded
indexes in another. A loop over the tables in the order of their numbers stores a value in every
slot in turn, or leaves the one that is there; so no store and no later access lies outside. The
widths are bytes, and so is their sum over a row, which no table brings beyond 36.

## Main definitions

* `Machine.storeEach` : the loop that stores a value in every slot.
* `Machine.Info` : the layout as a machine keeps it; `Info.of` keeps a layout.

## Main results

* `Machine.storeEach_eq` : **the loop stores in every slot** what its step comes to there.
* `Info.read_eq` : reading a layout never faults.
* `Info.rowCount_of`, `Info.codedWidth_of`, `Info.rowSize_of` : no access and no sum does.
-/

namespace AliasStubs.Machine

variable {σ ι β : Type}

/-! ### Slots -/

/-- Runs a step for every element and stores what it comes to in the element's slot. A step that
comes to nothing leaves the slot as it is. -/
def storeEach (number : ι → Nat) (step : ι → Stateful σ (Option β)) :
    List ι → Array β → Stateful σ (Array β)
  | [], slots => pure slots
  | t :: ts, slots => do
    match ← step t with
    | none => storeEach number step ts slots
    | some b =>
      let slots ← store slots (number t) b
      storeEach number step ts slots

/-- Behind `front`, the first of the initial values gives way to a new one. -/
theorem store_push (front : Array β) (n : Nat) (d b : β) :
    store (front ++ Array.replicate (n + 1) d) front.size b =
      .ok (front.push b ++ Array.replicate n d) := by
  have hlt : front.size < (front ++ Array.replicate (n + 1) d).size := by simp
  rw [store_of_lt hlt]
  congr 1
  rw [← Array.toList_inj]
  simp [List.replicate_succ]

/-- **Every slot holds what the step comes to there**, or the initial value `d` where it comes to
nothing, if the elements have the slots behind `front` in turn. -/
theorem storeEach_eq {number : ι → Nat} {step : ι → Stateful σ (Option β)} {d : β}
    {value : ι → EStateM Failure σ β} {ts : List ι} {front : Array β}
    (hnumber : ts.map number = List.range' front.size ts.length)
    (hstep : ∀ t ∈ ts, (step t >>= fun b => pure (b.getD d)) = liftReader (value t)) :
    storeEach number step ts (front ++ Array.replicate ts.length d) =
      liftReader (ts.mapM value >>= fun bs => pure (front ++ bs.toArray)) := by
  induction ts generalizing front with
  | nil => simp [storeEach, liftReader_pure]
  | cons t ts ih =>
      rw [List.map_cons, List.length_cons, List.range'_succ] at hnumber
      obtain ⟨hhead, htail⟩ := List.cons.inj hnumber
      obtain ⟨ht, hts⟩ := List.forall_mem_cons.mp hstep
      -- Either way, the slot of the head holds the value that its step comes to.
      have hstored : ∀ b : Option β,
          (match b with
            | none => storeEach number step ts (front ++ Array.replicate (ts.length + 1) d)
            | some b => do
              let slots ← store (front ++ Array.replicate (ts.length + 1) d) (number t) b
              storeEach number step ts slots) =
            storeEach number step ts (front.push (b.getD d) ++ Array.replicate ts.length d) := by
        intro b
        cases b with
        | none =>
            have hpush : front ++ Array.replicate (ts.length + 1) d =
                front.push d ++ Array.replicate ts.length d := by
              rw [← Array.toList_inj]
              simp [List.replicate_succ]
            rw [hpush]
            rfl
        | some b =>
            simp only [hhead, store_push, Option.getD_some]
            rfl
      have hrest : ∀ b : β, storeEach number step ts (front.push b ++ Array.replicate ts.length d) =
          liftReader (ts.mapM value >>= fun bs => pure (front.push b ++ bs.toArray)) :=
        fun b => ih (by rw [Array.size_push]; exact htail) hts
      calc storeEach number step (t :: ts) (front ++ Array.replicate (ts.length + 1) d)
          = step t >>= fun b =>
              storeEach number step ts (front.push (b.getD d) ++ Array.replicate ts.length d) := by
            rw [storeEach]
            exact congrArg (step t >>= ·) (funext hstored)
        _ = (step t >>= fun b => pure (b.getD d)) >>= fun b =>
              storeEach number step ts (front.push b ++ Array.replicate ts.length d) := by
            rw [bind_assoc]
            simp only [pure_bind]
        _ = liftReader (value t) >>= fun b =>
              liftReader (ts.mapM value >>= fun bs => pure (front.push b ++ bs.toArray)) := by
            rw [ht]
            simp only [hrest]
        _ = liftReader ((t :: ts).mapM value >>= fun bs => pure (front ++ bs.toArray)) := by
            rw [← liftReader_bind, List.mapM_cons]
            simp

/-- So it is where there is nothing but the slots. -/
theorem storeEach_replicate {number : ι → Nat} {step : ι → Stateful σ (Option β)} {d : β}
    {value : ι → EStateM Failure σ β} {ts : List ι}
    (hnumber : ts.map number = List.range' 0 ts.length)
    (hstep : ∀ t ∈ ts, (step t >>= fun b => pure (b.getD d)) = liftReader (value t)) :
    storeEach number step ts (Array.replicate ts.length d) =
      liftReader (ts.mapM value >>= fun bs => pure bs.toArray) := by
  have hempty : ts.map number = List.range' (#[] : Array β).size ts.length := hnumber
  have hstored := storeEach_eq hempty hstep
  simpa only [Array.empty_append] using hstored

/-! ### The layout -/

/-- The row counts and widths of one table stream, every one in its slot. -/
structure Info where
  /-- The row counts, by the number of the table. -/
  rows : Array Nat
  /-- The widths of the coded indexes, by the position of the kind. -/
  coded : Array Nat
  /-- Whether indexes into the identifier heap take four bytes. -/
  wideStrings : Bool
  /-- Whether indexes into the heap of globally unique identifiers take four bytes. -/
  wideGuids : Bool
  /-- Whether indexes into the blob heap take four bytes. -/
  wideBlobs : Bool

/-- Counts up the bits of a tag, from `bits` on, until every slot has a tag. -/
def tagBitsFrom (slots bits : Nat) : (rounds : Nat) → Checked Nat
  | 0 => throw .exhausted
  | rounds + 1 => do
    let reach ← Word.word64.shiftLeft 1 bits
    if reach < slots then
      let more ← Word.byte.add bits 1
      tagBitsFrom slots more rounds
    else
      return bits

/-- The number of low bits of a coded index that hold the tag. -/
def tagBits (k : CodedKind) : Checked Nat :=
  tagBitsFrom k.slots.length 0 Word.word64.bits

theorem tagBits_eq (k : CodedKind) : tagBits k = .ok k.tagBits := by
  cases k <;> rfl

namespace Info

/-- The width of a coded index, from the row counts. -/
def codedWidthFrom (rows : Array Nat) (k : CodedKind) : Checked Nat := do
  let counts ← k.tables.mapM fun t => index rows t.number
  let room ← sub 16 (← tagBits k)
  let limit ← Word.word32.shiftLeft 1 room
  return if limit ≤ counts.foldl max 0 then 4 else 2

/-- The layout with the given row counts. -/
def ofRows (rows : Array Nat) (wideStrings wideGuids wideBlobs : Bool) : Checked Info := do
  let initial := Array.replicate CodedKind.all.length 2
  let step := fun k => do return some (← codedWidthFrom rows k)
  let coded ← (storeEach (σ := Unit) CodedKind.ctorIdx step CodedKind.all initial).startingAt ()
  return { rows, coded, wideStrings, wideGuids, wideBlobs }

/-- Reads the row count of a table, if the mask marks it as present. -/
def readCount (data : ByteArray) (valid : Nat) (t : TableId) : Stateful Nat (Option Nat) := do
  let bit ← Word.word64.shiftLeft 1 t.number
  if valid &&& bit = 0 then
    return none
  else
    return some (← uint data 4)

/-- Reads the row counts of the tables that are present. -/
def read (data : ByteArray) (valid heapFlags : Nat) : Stateful Nat Info := do
  let unknown ← Word.word64.shiftRight valid TableId.count
  if unknown ≠ 0 then
    throw (.failure .notSupported)
  let initial := Array.replicate TableId.count 0
  let rows ← storeEach TableId.number (readCount data valid) TableId.all initial
  ofRows rows (heapFlags &&& 1 == 1) (heapFlags &&& 2 == 2) (heapFlags &&& 4 == 4)

/-- The number of rows of a table. -/
def rowCount (info : Info) (t : TableId) : Checked Nat :=
  index info.rows t.number

/-- The width of an index into a table. -/
def tableWidth (info : Info) (t : TableId) : Checked Nat := do
  return if 65535 < (← info.rowCount t) then 4 else 2

/-- The width of a coded index. -/
def codedWidth (info : Info) (k : CodedKind) : Checked Nat :=
  index info.coded k.ctorIdx

/-- The width of a column. -/
def columnWidth (info : Info) : Column → Checked Nat
  | .word16 => return 2
  | .word32 => return 4
  | .string => return if info.wideStrings then 4 else 2
  | .guid => return if info.wideGuids then 4 else 2
  | .blob => return if info.wideBlobs then 4 else 2
  | .row t => info.tableWidth t
  | .coded k => info.codedWidth k

/-- The width of a row, a sum of bytes. -/
def rowSize (info : Info) (t : TableId) : Checked Nat :=
  t.columns.foldlM (fun width c => do Word.byte.add width (← info.columnWidth c)) 0

/-- What a machine keeps of a layout. -/
def of (l : Layout) : Info where
  rows := (TableId.all.map l.rowCount).toArray
  coded := (CodedKind.all.map l.codedWidth).toArray
  wideStrings := l.wideStrings
  wideGuids := l.wideGuids
  wideBlobs := l.wideBlobs

/-! ### Access -/

variable (l : Layout)

theorem index_rows (t : TableId) : index (of l).rows t.number = .ok (l.rowCount t) := by
  refine index_of_getElem? ?_
  simp [of]

theorem rowCount_of (t : TableId) : (of l).rowCount t = .ok (l.rowCount t) :=
  index_rows l t

theorem tableWidth_of (t : TableId) : (of l).tableWidth t = .ok (l.tableWidth t) := by
  rw [tableWidth, rowCount_of, Layout.tableWidth, Layout.indexWidth]
  simp only [ok_bind, decide_eq_true_eq]
  rfl

/-- The list of all kinds holds each one at its position. -/
theorem all_getElem?_ctorIdx (k : CodedKind) : CodedKind.all[k.ctorIdx]? = some k := by
  cases k <;> rfl

theorem codedWidth_of (k : CodedKind) : (of l).codedWidth k = .ok (l.codedWidth k) := by
  refine index_of_getElem? ?_
  simp [of, all_getElem?_ctorIdx]

theorem columnWidth_of (c : Column) : (of l).columnWidth c = .ok (l.columnWidth c) := by
  cases c with
  | row t => exact tableWidth_of l t
  | coded k => exact codedWidth_of l k
  | word16 | word32 | string | guid | blob => rfl

/-- The sum of some widths that begins with `width` stays a byte. -/
theorem foldlM_columnWidth (cs : List Column) (width : Nat) (h : width + 4 * cs.length < 256) :
    cs.foldlM (fun width c => do Word.byte.add width (← (of l).columnWidth c)) width =
      .ok (width + l.columnsWidth cs) := by
  induction cs generalizing width with
  | nil => rfl
  | cons c cs ih =>
      have hc := l.columnWidth_le c
      rw [List.length_cons] at h
      have hadd : Word.byte.add width (l.columnWidth c) = .ok (width + l.columnWidth c) :=
        Word.add_of_lt (by rw [Word.bound_byte]; omega)
      have hsum : l.columnsWidth (c :: cs) = l.columnWidth c + l.columnsWidth cs := rfl
      rw [List.foldlM_cons, columnWidth_of, ok_bind, hadd, ok_bind,
        ih _ (by omega), hsum, Nat.add_assoc]

theorem length_columns_le (t : TableId) : t.columns.length ≤ 9 := by
  cases t <;> decide

theorem columnsWidth_le (cs : List Column) : l.columnsWidth cs ≤ 4 * cs.length := by
  induction cs with
  | nil => exact Nat.le_refl _
  | cons c cs ih =>
      have hc := l.columnWidth_le c
      have hsum : l.columnsWidth (c :: cs) = l.columnWidth c + l.columnsWidth cs := rfl
      rw [hsum, List.length_cons]
      omega

theorem rowSize_le (t : TableId) : l.rowSize t ≤ 36 := by
  have hlength := length_columns_le t
  have hwidth := columnsWidth_le l t.columns
  rw [Layout.rowSize]
  omega

/-- **The width of a row is a byte.** -/
theorem rowSize_of (t : TableId) : (of l).rowSize t = .ok (l.rowSize t) := by
  have hlength := length_columns_le t
  rw [rowSize, foldlM_columnWidth l _ 0 (by omega), Nat.zero_add, Layout.rowSize]

/-! ### Reading -/

theorem and_bit_eq (n i : Nat) : n &&& 1 <<< i = if n.testBit i then 1 <<< i else 0 := by
  rw [Nat.one_shiftLeft, Nat.and_two_pow]
  cases n.testBit i <;> simp

/-- A bit that is masked is set or not. -/
theorem and_bit_beq (n i : Nat) : (n &&& 1 <<< i == 1 <<< i) = n.testBit i := by
  have hpos : ¬ 0 = 1 <<< i := by
    rw [Nat.one_shiftLeft]
    exact Nat.ne_of_lt (Nat.two_pow_pos i)
  rw [and_bit_eq]
  cases n.testBit i <;> simp [hpos]

/-- The width of a coded index is taken from the counts of the tables that it can select. -/
theorem codedWidthFrom_of (k : CodedKind) :
    codedWidthFrom (of l).rows k = .ok (l.codedWidth k) := by
  have hcounts : (k.tables.mapM fun t => index (of l).rows t.number) =
      .ok (k.tables.map l.rowCount) := mapM_ok fun t _ => index_rows l t
  have hbits : k.tagBits ≤ 16 := by cases k <;> decide
  have hlimit : Word.word32.shiftLeft 1 (16 - k.tagBits) = .ok (1 <<< (16 - k.tagBits)) := by
    cases k <;> rfl
  have hlongest : (k.tables.map l.rowCount).foldl max 0 = l.longest k := List.foldl_map
  simp only [codedWidthFrom, hcounts, tagBits_eq, sub_of_le hbits, hlimit, hlongest,
    ok_bind]
  rw [Layout.codedWidth, Layout.indexWidth]
  simp only [decide_eq_true_eq]
  rfl

/-- The widths of the coded indexes are stored kind by kind. -/
theorem ofRows_of : ofRows (of l).rows l.wideStrings l.wideGuids l.wideBlobs = .ok (of l) := by
  have hstep : ∀ k ∈ CodedKind.all,
      ((do return some (← codedWidthFrom (of l).rows k) : Stateful Unit (Option Nat)) >>= fun b =>
        pure (b.getD 2)) = liftReader (pure (l.codedWidth k)) := by
    intro k _
    rw [codedWidthFrom_of]
    rfl
  have hnumber : CodedKind.all.map CodedKind.ctorIdx = List.range' 0 CodedKind.all.length := rfl
  have hstored := storeEach_replicate hnumber hstep
  rw [List.mapM_pure] at hstored
  rw [ofRows]
  simp only [hstored]
  simp only [pure_bind, liftReader_pure]
  rfl

/-- All tables come in the order of their numbers. -/
theorem map_number_all : TableId.all.map TableId.number = List.range' 0 TableId.all.length := rfl

/-- A row count is read if its bit is set. -/
theorem readCount_eq {data : ByteArray} (hdata : Addressable data) (valid : Nat) (t : TableId) :
    (readCount data valid t >>= fun b => pure (b.getD 0)) =
      liftReader (if valid.testBit t.number then Bytes.uint data 4 else pure 0) := by
  have hbit : Word.word64.shiftLeft 1 t.number = .ok (1 <<< t.number) := by
    cases t <;> rfl
  have hpos : ¬ 1 <<< t.number = 0 := by
    rw [Nat.one_shiftLeft]
    exact Nat.ne_of_gt (Nat.two_pow_pos _)
  simp only [readCount, hbit, Stateful.liftM_ok, pure_bind, and_bit_eq]
  cases valid.testBit t.number with
  | false => rfl
  | true =>
      rw [if_pos rfl, if_neg hpos, if_pos rfl, uint_eq hdata]
      simp

/-- Row counts that are listed by number are kept as they are. -/
theorem rows_ofCounts {counts : List Nat} (h : counts.length = TableId.count)
    (wideStrings wideGuids wideBlobs : Bool) :
    (of (Layout.ofCounts counts wideStrings wideGuids wideBlobs)).rows = counts.toArray := by
  have hnumbers : TableId.all.map TableId.number = List.range counts.length := by
    rw [h]
    rfl
  have hcounts : (List.range counts.length).map (counts.toArray.getD · 0) = counts := by
    refine List.ext_getElem (by simp) fun i hi hi' => ?_
    simp [Array.getD, hi']
  have hrows : (TableId.all.map fun t => counts.toArray.getD t.number 0) = counts := by
    calc (TableId.all.map fun t => counts.toArray.getD t.number 0)
        = (TableId.all.map TableId.number).map (counts.toArray.getD · 0) := by
          rw [List.map_map]
          rfl
      _ = counts := by rw [hnumbers, hcounts]
  exact congrArg List.toArray hrows

/-- As many values are listed as there are steps. -/
theorem length_of_mapM {f : ι → EStateM Failure σ β} {ts : List ι} {bs : List β} {s s' : σ}
    (h : ts.mapM f s = .ok bs s') : bs.length = ts.length := by
  induction ts generalizing bs s s' with
  | nil =>
      obtain ⟨rfl, -⟩ := Reading.pure_eq_ok_iff.mp h
      rfl
  | cons t ts ih =>
      rw [List.mapM_cons] at h
      obtain ⟨b, mid, -, h⟩ := Reading.bind_eq_ok_iff.mp h
      obtain ⟨rest, mid', hrest, h⟩ := Reading.bind_eq_ok_iff.mp h
      obtain ⟨rfl, -⟩ := Reading.pure_eq_ok_iff.mp h
      rw [List.length_cons, List.length_cons, ih hrest]

/-- **Reading a layout never faults.** -/
theorem read_eq {data : ByteArray} (hdata : Addressable data) (valid heapFlags : Nat) :
    read data valid heapFlags =
      liftReader (Layout.read data valid heapFlags >>= fun l => pure (of l)) := by
  have hunknown : Word.word64.shiftRight valid TableId.count = .ok (valid >>> TableId.count) :=
    Word.shiftRight_of_lt (by decide)
  have hstored := storeEach_replicate map_number_all fun t _ => readCount_eq hdata valid t
  rw [read, Layout.read]
  simp only [hunknown, Stateful.liftM_ok, pure_bind]
  by_cases hvalid : valid >>> TableId.count ≠ 0
  · simp only [if_pos hvalid]
    rfl
  simp only [if_neg hvalid]
  change storeEach TableId.number (readCount data valid) TableId.all
    (Array.replicate TableId.all.length 0) >>= _ = _
  rw [hstored, liftReader_bind, bind_assoc, bind_assoc]
  refine bind_eq_liftReader_bind rfl fun counts offset offset' hread => ?_
  have hof := ofRows_of (Layout.ofCounts counts (heapFlags.testBit 0) (heapFlags.testBit 1)
    (heapFlags.testBit 2))
  rw [rows_ofCounts (length_of_mapM hread)] at hof
  change ofRows counts.toArray (heapFlags.testBit 0) (heapFlags.testBit 1) (heapFlags.testBit 2) =
    _ at hof
  rw [← and_bit_beq, ← and_bit_beq, ← and_bit_beq] at hof
  rw [liftReader_pure, pure_bind]
  change (liftM (ofRows counts.toArray (heapFlags &&& 1 <<< 0 == 1 <<< 0)
    (heapFlags &&& 1 <<< 1 == 1 <<< 1) (heapFlags &&& 1 <<< 2 == 1 <<< 2)) :
      Stateful Nat Info) _ = _
  rw [hof]
  simp only [and_bit_beq]
  rfl

end Info

end AliasStubs.Machine
