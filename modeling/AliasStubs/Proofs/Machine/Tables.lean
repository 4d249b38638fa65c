import AliasStubs.Proofs.Machine.Rows
import AliasStubs.Proofs.Metadata.Readable

/-!
# Table streams on a machine

The tables lie back to back, and the size of each is a product of a row count and a width. The
products and their sums are checked against the data as they are made, and every table that is found
is put into its slot.

## Main definitions

* `Machine.Tables` : a table stream as a machine keeps it, `Tables.of` keeps a table stream.
* `Machine.Sound` : what is known of every table stream that is read.

## Main results

* `Tables.read_eq` : **reading a table stream never faults**.
* `Tables.table?_of`, `Tables.rows_of`, `Tables.row?_of` : nor does access to its tables.
-/

namespace AliasStubs.Machine

variable {data : ByteArray}

/-- A table stream with a slot for the bytes of every table. -/
structure Tables where
  /-- The major version of the tables' schema. -/
  majorVersion : Nat
  /-- The minor version of the tables' schema. -/
  minorVersion : Nat
  /-- The mask of the tables that are present. -/
  valid : Nat
  /-- The mask of the tables that are sorted. -/
  sorted : Nat
  /-- The row counts and widths. -/
  info : Info
  /-- The bytes of the tables that have rows, by the number of the table. -/
  slots : Array (Option ByteArray)

namespace Tables

/-- Finds the bytes of a table that has rows, and moves behind them. -/
def locate (data : ByteArray) (info : Info) (t : TableId) :
    Stateful Nat (Option (Option ByteArray)) := do
  let rows ← info.rowCount t
  if rows = 0 then
    return none
  else
    let width ← info.rowSize t
    let size ← Word.word64.mul rows width
    let offset ← get
    match Word.word64.add? offset size with
    | none => throw (.failure .outOfBounds)
    | some stop =>
      if offset ≤ stop ∧ stop ≤ data.size then
        set stop
        return some (some (data.extract offset stop))
      else
        throw (.failure .outOfBounds)

/-- Skips the four bytes that one of the flags announces. -/
def skipExtra (heapFlags : Nat) : Stateful Nat Unit :=
  if heapFlags &&& 0x40 ≠ 0 then do
    let offset ← get
    let next ← Word.word64.add offset 4
    set next
  else
    pure ()

/-- Reads the row counts and finds the tables behind them. -/
def readSlots (data : ByteArray) (valid heapFlags : Nat) :
    Stateful Nat (Info × Array (Option ByteArray)) := do
  let info ← Info.read data valid heapFlags
  skipExtra heapFlags
  let initial := Array.replicate TableId.count none
  let slots ← storeEach TableId.number (locate data info) TableId.all initial
  return (info, slots)

/-- Reads a table stream. -/
def read (data : ByteArray) : Checked Tables := do
  if data.size < 24 then
    throw (.failure .outOfBounds)
  let heapFlags ← uintFrom data 1 6
  let valid ← uintFrom data 8 8
  if valid = 0 then
    throw (.failure (.malformed .noTables))
  let (info, slots) ← (readSlots data valid heapFlags).startingAt 24
  let majorVersion ← uintFrom data 1 4
  let minorVersion ← uintFrom data 1 5
  let sorted ← uintFrom data 8 16
  return { majorVersion, minorVersion, valid, sorted, info, slots }

/-- The table of a type of rows, if it has any. -/
def table? (s : Tables) (α : Type) [TableRow α] : Checked (Option (TableView α)) := do
  match ← index s.slots (TableRow.table α).number with
  | none => return none
  | some data =>
    let rowCount ← s.info.rowCount (TableRow.table α)
    let rowSize ← s.info.rowSize (TableRow.table α)
    return some { data, rowCount, rowSize, info := s.info }

/-- All rows of a table, none if it is absent. -/
def rows (s : Tables) (α : Type) [TableRow α] : Checked (Array α) := do
  match ← s.table? α with
  | none => return #[]
  | some t => t.walk Table.Cursor.start #[] (t.rowCount + 1)

/-- Row `rid` of a table, if the table exists and the row can be read. -/
def row? (s : Tables) (α : Type) [TableRow α] (rid : Nat) : Checked (Option α) := do
  match ← s.table? α with
  | none => return none
  | some t =>
    match t.get rid with
    | .ok a => return some a
    | .error (.failure _) => return none
    | .error stop => throw stop

/-- What a machine keeps of a table stream. -/
def of (s : TableStream) : Tables where
  majorVersion := s.majorVersion
  minorVersion := s.minorVersion
  valid := s.valid
  sorted := s.sorted
  info := .of s.layout
  slots := (TableId.all.map s.bytes?).toArray

end Tables

/-! ### Finding the tables -/

/-- The bytes of a table, if it has rows, as a reader that moves behind them. -/
def bytesAt (data : ByteArray) (l : Layout) (t : TableId) : Reader (Option ByteArray) :=
  fun offset =>
    if l.rowCount t = 0 then
      .ok none offset
    else
      match Bytes.slice data offset (l.rowCount t * l.rowSize t) with
      | .ok bytes => .ok (some bytes) (offset + l.rowCount t * l.rowSize t)
      | .error e => .error e offset

/-- Those of the tables `ts` that have bytes. -/
def present (ts : List TableId) (found : List (Option ByteArray)) : List (TableId × ByteArray) :=
  (ts.zip found).filterMap fun (t, bytes?) => bytes?.map (t, ·)

theorem atOffset_bind_of_ok {α β : Type} {r : Reader α} {offset next : Nat} {a : α}
    (h : r offset = .ok a next) (f : α → Reader β) :
    (r >>= f).atOffset offset = (f a).atOffset next := by
  rw [Reader.atOffset, Reading.bind_of_eq_ok h, Reader.atOffset]

/-- The tables are found one after the other. -/
theorem locate_eq_mapM (data : ByteArray) (l : Layout) (ts : List TableId) (offset : Nat) :
    TableStream.locate data l ts offset =
      ((ts.mapM (bytesAt data l)).atOffset offset).map (present ts) := by
  induction ts generalizing offset with
  | nil => rfl
  | cons t ts ih =>
      have hrest (bytes? : Option ByteArray) (next : Nat) :
          (ts.mapM (bytesAt data l) >>= fun rest => pure (bytes? :: rest) :
            Reader (List (Option ByteArray))).atOffset next =
          ((ts.mapM (bytesAt data l)).atOffset next).map (bytes? :: ·) := by
        simp only [Reader.atOffset, bind, EStateM.bind]
        cases ts.mapM (bytesAt data l) next <;> rfl
      rw [TableStream.locate, List.mapM_cons]
      by_cases hzero : l.rowCount t = 0
      · have hnone : bytesAt data l t offset = .ok none offset := if_pos hzero
        rw [if_pos hzero, atOffset_bind_of_ok hnone, hrest, ih]
        cases (ts.mapM (bytesAt data l)).atOffset offset <;> rfl
      · rw [if_neg hzero]
        cases hslice : Bytes.slice data offset (l.rowCount t * l.rowSize t) with
        | error e =>
            have herror : bytesAt data l t offset = .error e offset := by
              rw [bytesAt, if_neg hzero, hslice]
            simp only [Reader.atOffset, bind, EStateM.bind, herror, hslice]
            rfl
        | ok bytes =>
            have hok : bytesAt data l t offset =
                .ok (some bytes) (offset + l.rowCount t * l.rowSize t) := by
              rw [bytesAt, if_neg hzero, hslice]
            rw [atOffset_bind_of_ok hok, hrest]
            simp only [hslice, ih]
            cases (ts.mapM (bytesAt data l)).atOffset (offset + l.rowCount t * l.rowSize t) <;> rfl

/-- A table that was not looked for is not present. -/
theorem lookup_present_of_not_mem {ts : List TableId} {found : List (Option ByteArray)}
    {t : TableId} (h : t ∉ ts) : (present ts found).lookup t = none := by
  rw [List.lookup_eq_none_iff]
  rintro ⟨u, bytes⟩ hmem
  obtain ⟨⟨u', bytes?⟩, hzip, hbytes⟩ := List.mem_filterMap.mp hmem
  obtain ⟨b, -, hpair⟩ := Option.map_eq_some_iff.mp hbytes
  obtain ⟨rfl, rfl⟩ := Prod.mk.inj hpair
  have hu : u' ∈ ts := (List.of_mem_zip hzip).1
  exact bne_iff_ne.mpr fun heq => h (heq ▸ hu)

/-- A table is present with the bytes that were found for it. -/
theorem lookup_present {ts : List TableId} {found : List (Option ByteArray)} (hts : ts.Nodup)
    (h : found.length = ts.length) : ts.map ((present ts found).lookup ·) = found := by
  induction ts generalizing found with
  | nil => exact (List.length_eq_zero_iff.mp h).symm
  | cons t ts ih =>
      obtain ⟨hnot, hts⟩ := List.nodup_cons.mp hts
      cases found with
      | nil => cases h
      | cons bytes? found =>
          have htail := ih hts (Nat.succ.inj h)
          cases bytes? with
          | none =>
              have hhead : (present ts found).lookup t = none := lookup_present_of_not_mem hnot
              change (present ts found).lookup t :: ts.map ((present ts found).lookup ·) = _
              rw [hhead, htail]
          | some bytes =>
              have hskip : ∀ u ∈ ts, ((t, bytes) :: present ts found).lookup u =
                  (present ts found).lookup u := by
                intro u hu
                have hne : (u == t) = false := beq_eq_false_iff_ne.mpr fun heq => hnot (heq ▸ hu)
                rw [List.lookup_cons, hne]
              change ((t, bytes) :: present ts found).lookup t ::
                ts.map (((t, bytes) :: present ts found).lookup ·) = _
              rw [List.lookup_cons_self, List.map_congr_left hskip, htail]

/-! ### Reading -/

/-- What is known of every table stream that is read: its row counts have 32 bits, and a machine can
hold its tables. -/
structure Sound (s : TableStream) : Prop where
  rowCount_lt (t : TableId) : s.layout.rowCount t < UInt32.size
  addressable {t : TableId} {bytes : ByteArray} (h : s.bytes? t = some bytes) : Addressable bytes

/-- Row counts that are read have 32 bits, and there are too few of them to come near the end of a
word. -/
theorem layout_of_read {valid heapFlags offset next : Nat} {l : Layout}
    (h : Layout.read data valid heapFlags offset = .ok l next) :
    (∀ t, l.rowCount t < UInt32.size) ∧ next ≤ offset + 4 * TableId.count := by
  obtain ⟨-, hnext, hcounts⟩ := Layout.counts_of_read h
  have hbits : bitsBelow valid TableId.count ≤ TableId.count := bitsBelow_le _ _
  refine ⟨fun t => ?_, by omega⟩
  rw [hcounts]
  split
  · exact Bytes.littleEndian_lt data 4 _
  · decide

namespace Tables

/-- **Finding a table never faults.** -/
theorem locate_eq (hdata : Addressable data) {l : Layout} {t : TableId}
    (hcount : l.rowCount t < UInt32.size) :
    (locate data (.of l) t >>= fun bytes => pure (bytes.getD none)) =
      liftReader (bytesAt data l t) := by
  have hbound := hdata.lt_bound
  have hwidth := Info.rowSize_le l t
  have hsize : Word.word64.mul (l.rowCount t) (l.rowSize t) =
      .ok (l.rowCount t * l.rowSize t) := by
    refine Word.mul_of_lt (Nat.lt_of_le_of_lt (Nat.mul_le_mul (Nat.le_of_lt hcount) hwidth) ?_)
    decide
  funext offset
  rw [locate, Info.rowCount_of]
  simp only [Stateful.liftM_ok, pure_bind]
  by_cases hzero : l.rowCount t = 0
  · simp only [if_pos hzero, liftReader, bytesAt]
    rfl
  · simp only [if_neg hzero, Info.rowSize_of, Stateful.liftM_ok, pure_bind, hsize, bind_assoc,
      Stateful.get_bind_apply, liftReader, bytesAt, Bytes.slice]
    by_cases hword : offset + l.rowCount t * l.rowSize t < Word.word64.bound
    · simp only [Word.add?_of_lt hword, Nat.le_add_right, true_and]
      by_cases hfits : offset + l.rowCount t * l.rowSize t ≤ data.size
      · simp only [if_pos hfits]
        rfl
      · simp only [if_neg hfits]
        rfl
    · have hfits : ¬ offset + l.rowCount t * l.rowSize t ≤ data.size := by
        rw [Word.bound_word64] at hword
        omega
      simp only [Word.add?_of_le (Nat.not_lt.mp hword), if_neg hfits]
      rfl

/-- The four bytes that are announced are skipped, where the offset behind them fits into a word. -/
theorem skipExtra_apply (heapFlags : Nat) {offset : Nat} (h : offset + 4 < Word.word64.bound) :
    skipExtra heapFlags offset =
      .ok () (if heapFlags.testBit 6 then offset + 4 else offset) := by
  have hflag : (heapFlags &&& 0x40 ≠ 0) ↔ heapFlags.testBit 6 = true := by
    change ¬ heapFlags &&& 1 <<< 6 = 0 ↔ _
    rw [Info.and_bit_eq]
    cases heapFlags.testBit 6 <;> decide
  rw [skipExtra]
  by_cases hbit : heapFlags.testBit 6 = true
  · rw [if_pos (hflag.mpr hbit), if_pos hbit, Stateful.get_bind_apply, Word.add_of_lt h]
    rfl
  · rw [if_neg (mt hflag.mp hbit), if_neg hbit]
    rfl

/-- The tables are put into their slots. -/
theorem storeEach_locate (hdata : Addressable data) {l : Layout}
    (hcount : ∀ t, l.rowCount t < UInt32.size) :
    storeEach TableId.number (locate data (.of l)) TableId.all
        (Array.replicate TableId.count none) =
      liftReader (TableId.all.mapM (bytesAt data l) >>= fun found => pure found.toArray) := by
  exact storeEach_replicate Info.map_number_all fun t _ => locate_eq hdata (hcount t)

/-- **Finding the tables never faults.** -/
theorem readSlots_eq (hdata : Addressable data) (valid heapFlags : Nat) :
    (readSlots data valid heapFlags).startingAt 24 =
      lift (TableStream.readLayout data valid heapFlags >>= fun p =>
        (TableStream.locate data p.1 TableId.all p.2).map fun tables =>
          (Info.of p.1, (TableId.all.map (tables.lookup ·)).toArray)) := by
  have hbound := hdata.lt_bound
  have hinfo := congrFun (Info.read_eq hdata valid heapFlags) 24
  rw [readSlots, Stateful.startingAt]
  cases hlayout : Layout.read data valid heapFlags 24 with
  | error e next =>
      have hread : Info.read data valid heapFlags 24 = .error (.failure e) next := by
        rw [hinfo, liftReader]
        simp only [bind, EStateM.bind, hlayout]
      have hlibrary : TableStream.readLayout data valid heapFlags = .error e := by
        rw [TableStream.readLayout, hlayout]
      rw [Stateful.bind_of_eq_error hread, hlibrary]
      rfl
  | ok l next =>
      obtain ⟨hcount, hnext⟩ := layout_of_read hlayout
      have hread : Info.read data valid heapFlags 24 = .ok (Info.of l) next := by
        rw [hinfo, liftReader]
        simp only [bind, EStateM.bind, hlayout]
        rfl
      have hword : next + 4 < Word.word64.bound := by
        have hcount : TableId.count = 45 := rfl
        rw [Word.bound_word64]
        omega
      have hskip := skipExtra_apply heapFlags hword
      have hlibrary : TableStream.readLayout data valid heapFlags =
          .ok (l, if heapFlags.testBit 6 then next + 4 else next) := by
        rw [TableStream.readLayout, hlayout]
      rw [Stateful.bind_of_eq_ok hread, Stateful.bind_of_eq_ok hskip, storeEach_locate hdata hcount,
        hlibrary, ok_bind, locate_eq_mapM, Reader.atOffset]
      generalize (if heapFlags.testBit 6 then next + 4 else next) = first
      cases hfound : TableId.all.mapM (bytesAt data l) first with
      | error e next =>
          have hslots : liftReader (TableId.all.mapM (bytesAt data l) >>= fun found =>
              pure found.toArray) first = .error (.failure e) next := by
            simp only [liftReader, bind, EStateM.bind, hfound]
          rw [Stateful.bind_of_eq_error hslots]
          rfl
      | ok found next =>
          have hslots : liftReader (TableId.all.mapM (bytesAt data l) >>= fun found =>
              pure found.toArray) first = .ok found.toArray next := by
            simp only [liftReader, bind, EStateM.bind, hfound]
            rfl
          have hlookup := lookup_present (by decide) (Info.length_of_mapM hfound)
          rw [Stateful.bind_of_eq_ok hslots]
          simp only [Except.map, hlookup]
          rfl

/-- **Reading a table stream never faults.** -/
theorem read_eq (hdata : Addressable data) : read data = lift ((TableStream.read data).map of) := by
  rw [read, TableStream.read]
  by_cases hsize : data.size < 24
  · simp only [if_pos hsize]
    rfl
  have hfield (width start : Nat) (hstart : start ≤ 24) (hwidth : width < Word.word64.bound) :
      uintFrom data width start = lift (Bytes.uintAt data width start) :=
    uintFrom_eq (by omega) hwidth
  simp only [if_neg hsize, hfield 1 6 (by decide) (by decide), hfield 8 8 (by decide) (by decide),
    hfield 1 4 (by decide) (by decide), hfield 1 5 (by decide) (by decide),
    hfield 8 16 (by decide) (by decide)]
  rcases Bytes.uintAt data 1 6 with _ | heapFlags
  · rfl
  rcases Bytes.uintAt data 8 8 with _ | valid
  · rfl
  simp only [lift_ok, ok_bind, readSlots_eq hdata valid heapFlags]
  by_cases hvalid : valid = 0
  · simp only [if_pos hvalid]
    rfl
  simp only [if_neg hvalid]
  rcases TableStream.readLayout data valid heapFlags with _ | ⟨layout, offset⟩
  · rfl
  simp only [ok_bind]
  rcases TableStream.locate data layout TableId.all offset with _ | tables
  · rfl
  rcases Bytes.uintAt data 1 4 with _ | majorVersion
  · rfl
  rcases Bytes.uintAt data 1 5 with _ | minorVersion
  · rfl
  cases Bytes.uintAt data 8 16 <;> rfl

end Tables

/-! ### What is read -/

/-- **Every table stream that is read is sound.** -/
theorem sound_of_read (hdata : Addressable data) {s : TableStream}
    (h : TableStream.read data = .ok s) : Sound s := by
  constructor
  · obtain ⟨next, hlayout, -⟩ := TableStream.exists_of_read h
    exact (layout_of_read hlayout).1
  · intro t bytes hbytes
    obtain ⟨-, rfl, -⟩ := TableStream.eq_extract_of_bytes? h hbytes
    exact hdata.extract _ _

namespace Tables

/-! ### Access -/

variable {α : Type} [TableRow α] {s : TableStream}

/-- **Looking for a table never faults.** -/
theorem table?_of (s : TableStream) (α : Type) [TableRow α] :
    (of s).table? α = .ok ((s.table? α).map TableView.of) := by
  have hslot : index (of s).slots (TableRow.table α).number =
      .ok (s.bytes? (TableRow.table α)) := by
    refine index_of_getElem? ?_
    simp [of]
  rw [table?, hslot, ok_bind, TableStream.table?]
  cases s.bytes? (TableRow.table α) with
  | none => rfl
  | some data =>
      change (Info.of s.layout).rowCount _ >>= _ = _
      rw [Info.rowCount_of, ok_bind]
      change (Info.of s.layout).rowSize _ >>= _ = _
      rw [Info.rowSize_of]
      rfl

/-- A machine can hold every table of a sound stream. -/
theorem holds_of_table? (hs : Sound s) {t : Table α} (h : s.table? α = some t) :
    TableView.Holds t := by
  obtain ⟨data, hdata, rfl⟩ := Option.map_eq_some_iff.mp h
  exact ⟨hs.addressable hdata, hs.rowCount_lt _⟩

/-- **Reading all rows of a table never faults.** -/
theorem rows_of (hs : Sound s) : (of s).rows α = lift (s.rows α) := by
  rw [rows, table?_of, ok_bind, TableStream.rows]
  cases htable : s.table? α with
  | none => rfl
  | some t => exact TableView.walk_of (holds_of_table? hs htable)

/-- The rows of a sound stream are numbered in order. -/
theorem numbered_of_rows (hs : Sound s) {rows : Array α} (h : s.rows α = .ok rows) :
    Numbered rows := by
  rw [TableStream.rows] at h
  split at h
  · rename_i t htable
    exact Machine.numbered_of_rows (holds_of_table? hs htable) h
  · cases h
    exact numbered_empty

/-- **Looking a row up never faults**, whether or not it can be read. -/
theorem row?_of (hs : Sound s) (rid : Nat) : (of s).row? α rid = .ok (s.row? α rid) := by
  rw [row?, table?_of, ok_bind, TableStream.row?]
  cases htable : s.table? α with
  | none => rfl
  | some t =>
      have hget := TableView.get_of (holds_of_table? hs htable) rid
      simp only [Option.map_some, Option.bind_some, hget]
      cases t.get rid <;> rfl

end Tables

end AliasStubs.Machine
