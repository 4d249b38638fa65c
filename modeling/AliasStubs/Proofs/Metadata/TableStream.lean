import AliasStubs.Metadata.TableStream
import AliasStubs.Proofs.Metadata.Rows

/-!
# Table streams that are written are read back

A table stream is written from its `Contents`: the fields of the header, the row count of every
table, the four bytes that a flag announces, and the bytes of every table, in ascending order of
number. Which widths the rows have follows from the row counts and the flags alone, so one set of
counts fixes where every table stands.

Nothing is asked of the tables whose rows are not decoded further but their length, and nothing of
what stands behind the stream.

## Main definitions

* `TableStream.Contents` : what a table stream is written from; `Contents.bytes` writes it.
* `Contents.Stores` : the bytes of a table are those of given rows.

## Main results

* `TableStream.locate_of_holdsAt` : every table is found at its place.
* `TableStream.read_bytes` : **a table stream that is written is read back**.
-/

namespace AliasStubs

open Bytes Reading

namespace TableStream

/-- What a table stream is written from. -/
structure Contents where
  /-- Four bytes without a meaning, at the start of the header. -/
  reserved : List UInt8
  /-- The major version of the tables' schema. -/
  majorVersion : UInt8
  /-- The minor version of the tables' schema. -/
  minorVersion : UInt8
  /-- The flags: three widen heap indexes, one announces four more bytes before the tables. -/
  heapFlags : UInt8
  /-- One more byte without a meaning. -/
  padding : UInt8
  /-- The mask of the tables that are present. -/
  valid : Nat
  /-- The mask of the tables that are sorted. -/
  sorted : Nat
  /-- The number of rows of each table. -/
  rowCount : TableId → Nat
  /-- The bytes between the row counts and the tables. -/
  extra : List UInt8
  /-- The bytes of each table. -/
  body : TableId → List UInt8
  reserved_length : reserved.length = 4
  valid_ne_zero : valid ≠ 0
  valid_lt : valid < 2 ^ TableId.count
  sorted_lt : sorted < 2 ^ 64
  rowCount_lt : ∀ t, rowCount t < 2 ^ 32
  rowCount_absent : ∀ t, valid.testBit t.number = false → rowCount t = 0
  extra_length : extra.length = if heapFlags.toNat.testBit 6 then 4 else 0
  body_length : ∀ t, (body t).length = rowCount t * Layout.rowSize
    { rowCount
      wideStrings := heapFlags.toNat.testBit 0
      wideGuids := heapFlags.toNat.testBit 1
      wideBlobs := heapFlags.toNat.testBit 2 } t

namespace Contents

/-- The layout that the row counts and flags fix. -/
def layout (c : Contents) : Layout where
  rowCount := c.rowCount
  wideStrings := c.heapFlags.toNat.testBit 0
  wideGuids := c.heapFlags.toNat.testBit 1
  wideBlobs := c.heapFlags.toNat.testBit 2

/-- The header of the stream. -/
def header (c : Contents) : List UInt8 :=
  c.reserved ++ ([c.majorVersion] ++ ([c.minorVersion] ++ ([c.heapFlags] ++ ([c.padding] ++
    (ofUint 8 c.valid ++ ofUint 8 c.sorted)))))

/-- The row count of a table, which only the tables that are present have. -/
def countBytes (c : Contents) (t : TableId) : List UInt8 :=
  if c.valid.testBit t.number then ofUint 4 (c.rowCount t) else []

/-- The bytes of the whole stream. -/
def bytes (c : Contents) : List UInt8 :=
  c.header ++ (TableId.all.flatMap c.countBytes ++ (c.extra ++ TableId.all.flatMap c.body))

/-- Whether the bytes of a table are those of `rows`, numbered from one and each fitting the widths
of the stream. -/
structure Stores {α : Type} [StoredRow α] (c : Contents) (rows : List α) : Prop where
  body_eq : c.body (TableRow.table α) = TableRow.bytesOf c.layout rows
  length_eq : rows.length = c.rowCount (TableRow.table α)
  fits : ∀ a ∈ rows, TableRow.Fits c.layout a
  rid_eq : rows.map StoredRow.rid = List.range' 1 rows.length

@[simp] theorem layout_rowCount (c : Contents) : c.layout.rowCount = c.rowCount := rfl

theorem length_header (c : Contents) : c.header.length = 24 := by
  simp [header, c.reserved_length]

/-- A table takes its row count times the width of its rows. -/
theorem length_body (c : Contents) (t : TableId) :
    (c.body t).length = c.layout.rowCount t * c.layout.rowSize t :=
  c.body_length t

end Contents

variable {c : Contents} {data : ByteArray} {offset : Nat}

/-! ### The layout -/

/-- A row count is read back. -/
theorem count_of_holdsAt {t : TableId} (h : HoldsAt data offset (c.countBytes t)) :
    (if c.valid.testBit t.number then Bytes.uint data 4 else pure 0) offset =
      .ok (c.rowCount t) (offset + (c.countBytes t).length) := by
  unfold Contents.countBytes at h ⊢
  split
  · rename_i hvalid
    rw [if_pos hvalid] at h
    rw [uint_of_holdsAt h (c.rowCount_lt t), length_ofUint]
  · rename_i hvalid
    rw [c.rowCount_absent t (by simpa using hvalid)]
    rfl

/-- The row counts of a run of tables are read back. -/
theorem counts_of_holdsAt {ts : List TableId} (h : HoldsAt data offset (ts.flatMap c.countBytes)) :
    (ts.mapM fun t => if c.valid.testBit t.number then Bytes.uint data 4 else pure 0) offset =
      .ok (ts.map c.rowCount) (offset + (ts.flatMap c.countBytes).length) := by
  induction ts generalizing offset with
  | nil => rfl
  | cons t ts ih =>
      rw [List.flatMap_cons] at h
      rw [List.mapM_cons, bind_of_eq_ok (count_of_holdsAt h.left), bind_of_eq_ok (ih h.right),
        List.flatMap_cons, List.length_append, ← Nat.add_assoc]
      rfl

/-- Row counts that are listed by table number are found by table. -/
theorem ofCounts_map_all (f : TableId → Nat) (wideStrings wideGuids wideBlobs : Bool) :
    Layout.ofCounts (TableId.all.map f) wideStrings wideGuids wideBlobs =
      ⟨f, wideStrings, wideGuids, wideBlobs⟩ := by
  have hcount : (fun t : TableId => (TableId.all.map f).toArray.getD t.number 0) = f := by
    funext t
    simp [Array.getD_eq_getD_getElem?]
  rw [Layout.ofCounts]
  simp only [hcount]

/-- **The layout that was written with is the one that is read.** -/
theorem readLayout_of_holdsAt
    (h : HoldsAt data 24 (TableId.all.flatMap c.countBytes ++ c.extra)) :
    readLayout data c.valid c.heapFlags.toNat =
      .ok (c.layout, 24 + (TableId.all.flatMap c.countBytes).length + c.extra.length) := by
  have hvalid : c.valid >>> TableId.count = 0 := by
    rw [Nat.shiftRight_eq_div_pow, Nat.div_eq_of_lt c.valid_lt]
  have hread : Layout.read data c.valid c.heapFlags.toNat 24 =
      .ok c.layout (24 + (TableId.all.flatMap c.countBytes).length) := by
    rw [Layout.read, if_neg (not_not_intro hvalid)]
    exact (bind_of_eq_ok (counts_of_holdsAt h.left) _).trans (by rw [ofCounts_map_all]; rfl)
  rw [readLayout, hread, c.extra_length]
  simp only
  split <;> rfl

/-! ### The tables -/

/-- The tables among `ts` that have rows, with their bytes. -/
def Contents.stored (c : Contents) (ts : List TableId) : List (TableId × ByteArray) :=
  (ts.filter (c.rowCount · ≠ 0)).map fun t => (t, ⟨(c.body t).toArray⟩)

/-- **Every table is found at its place.** The widths of the rows before it add up to its offset. -/
theorem locate_of_holdsAt {ts : List TableId} (h : HoldsAt data offset (ts.flatMap c.body)) :
    locate data c.layout ts offset = .ok (c.stored ts) := by
  induction ts generalizing offset with
  | nil => rfl
  | cons t ts ih =>
      rw [List.flatMap_cons] at h
      have hlen := c.length_body t
      rw [locate, Contents.layout_rowCount]
      by_cases hzero : c.rowCount t = 0
      · have hempty : c.body t = [] := by
          rw [Contents.layout_rowCount, hzero, Nat.zero_mul] at hlen
          exact List.length_eq_zero_iff.mp hlen
        rw [hempty, List.nil_append] at h
        rw [if_pos hzero, ih h, Contents.stored, Contents.stored,
          List.filter_cons_of_neg (by simpa using hzero)]
      · have hslice := slice_of_holdsAt h.left
        have htail := ih h.right
        rw [hlen, Contents.layout_rowCount] at hslice htail
        rw [if_neg hzero, Contents.stored, List.filter_cons_of_pos (by simpa using hzero)]
        simp only [hslice, htail]
        rfl

/-- A value that is stored under its own key is found there. -/
theorem lookup_map_self {β : Type} (f : TableId → β) {ts : List TableId} {t : TableId} :
    (ts.map fun t => (t, f t)).lookup t = if t ∈ ts then some (f t) else none := by
  induction ts with
  | nil => rfl
  | cons u ts ih =>
      rw [List.map_cons, List.lookup_cons, ih]
      by_cases htu : t = u
      · subst htu
        simp
      · have hbeq : (t == u) = false := by simpa using htu
        simp [hbeq, htu]

/-- The bytes of a table are found if it has rows. -/
theorem lookup_stored {ts : List TableId} {t : TableId} (ht : t ∈ ts) :
    (c.stored ts).lookup t = if c.rowCount t ≠ 0 then some ⟨(c.body t).toArray⟩ else none := by
  rw [Contents.stored, lookup_map_self fun t => (⟨(c.body t).toArray⟩ : ByteArray)]
  simp only [List.mem_filter, ht, true_and, decide_eq_true_eq]

/-! ### The stream -/

/-- What is read from the bytes of the contents. -/
def Contents.stream (c : Contents) : TableStream where
  majorVersion := c.majorVersion.toNat
  minorVersion := c.minorVersion.toNat
  valid := c.valid
  sorted := c.sorted
  layout := c.layout
  tables := c.stored TableId.all

/-- The fields of the header stand at their offsets. -/
theorem holdsAt_header (h : HoldsAt data 0 c.header) :
    HoldsAt data 4 [c.majorVersion] ∧ HoldsAt data 5 [c.minorVersion] ∧
      HoldsAt data 6 [c.heapFlags] ∧ HoldsAt data 8 (ofUint 8 c.valid) ∧
      HoldsAt data 16 (ofUint 8 c.sorted) := by
  have hmajor := h.right
  rw [c.reserved_length] at hmajor
  have hminor := hmajor.right
  have hflags := hminor.right
  have hpadding := hflags.right
  have hvalid := hpadding.right
  have hsorted := hvalid.right
  rw [length_ofUint] at hsorted
  exact ⟨hmajor.left, hminor.left, hflags.left, hvalid.left, hsorted⟩

/-- A written stream is read, field by field. -/
theorem read_of_holdsAt (h : HoldsAt data 0 c.bytes) : read data = .ok c.stream := by
  obtain ⟨hmajor, hminor, hflags, hvalid, hsorted⟩ := holdsAt_header h.left
  have hsize : ¬ data.size < 24 := by
    have := h.left.le_size
    rw [c.length_header] at this
    omega
  have hrest := h.right
  rw [c.length_header, ← List.append_assoc] at hrest
  have htables := hrest.right
  rw [List.length_append] at htables
  have hlt : c.valid < 256 ^ 8 := by
    have := c.valid_lt
    have hcount : 2 ^ TableId.count < 256 ^ 8 := by decide
    omega
  have hlayout := readLayout_of_holdsAt hrest.left
  have hlocate := locate_of_holdsAt htables
  rw [Nat.zero_add, ← Nat.add_assoc] at hlocate
  simp only [read, hsize, uintAt_of_holdsAt_singleton hflags, uintAt_of_holdsAt hvalid hlt,
    c.valid_ne_zero, hlayout, hlocate, uintAt_of_holdsAt_singleton hmajor,
    uintAt_of_holdsAt_singleton hminor, uintAt_of_holdsAt hsorted c.sorted_lt, if_false, bind,
    Except.bind]
  rfl

/-- **A table stream that is written is read back.** Whatever stands behind it, exactly the tables
with rows are there, and the walk over a table whose bytes are those of some rows yields exactly
these rows, in order. -/
theorem read_bytes (c : Contents) (trailing : List UInt8) :
    ∃ s, read ⟨(c.bytes ++ trailing).toArray⟩ = .ok s ∧
      (∀ t, (s.bytes? t).isSome ↔ c.rowCount t ≠ 0) ∧
      ∀ (α : Type) [StoredRow α] (rows : List α), c.Stores rows → rows ≠ [] →
        ∃ table, s.table? α = some table ∧ table.results.toList.map (·.1) = rows.map .ok := by
  refine ⟨c.stream, read_of_holdsAt (holdsAt_zero _ _), fun t => ?_, fun α _ rows h hne => ?_⟩
  · rw [bytes?, Contents.stream, lookup_stored (TableId.mem_all t)]
    split <;> simp [*]
  · have hcount : c.rowCount (TableRow.table α) ≠ 0 := by
      rw [← h.length_eq]
      exact fun hzero => hne (List.length_eq_zero_iff.mp hzero)
    refine ⟨⟨⟨(c.body (TableRow.table α)).toArray⟩, c.rowCount (TableRow.table α), c.layout⟩,
      ?_, ?_⟩
    · rw [table?, bytes?, Contents.stream, lookup_stored (TableId.mem_all _), if_pos hcount]
      rfl
    · have hdata := holdsAt_zero (c.body (TableRow.table α)) []
      rw [List.append_nil] at hdata
      exact Table.results_of_rows (h.body_eq ▸ hdata) h.fits h.rid_eq h.length_eq

/-- A stream with one module, two references to types and a row of edits, the four more bytes and
wide identifiers. -/
def Contents.sample : Contents where
  reserved := [0, 0, 0, 0]
  majorVersion := 2
  minorVersion := 0
  heapFlags := 0x41
  padding := 1
  valid := 0x40000003
  sorted := 0
  rowCount
    | .module => 1
    | .typeRef => 2
    | .encLog => 1
    | _ => 0
  extra := [9, 9, 9, 9]
  body
    | .module => [0, 0, 1, 0, 0, 0, 1, 0, 0, 0, 0, 0]
    | .typeRef => [6, 0, 1, 0, 5, 0, 0, 0, 11, 0, 3, 0, 9, 0, 0, 0, 0, 0, 0, 0]
    | .encLog => [1, 2, 3, 4, 5, 6, 7, 8]
    | _ => []
  reserved_length := rfl
  valid_ne_zero := by decide
  valid_lt := by decide
  sorted_lt := by decide
  rowCount_lt t := by cases t <;> decide
  rowCount_absent t := by cases t <;> decide
  extra_length := rfl
  body_length t := by cases t <;> decide

/-- The two references to types are read from the stream, a byte behind it notwithstanding. -/
theorem read_bytes_sample :
    ∃ s, read ⟨(Contents.sample.bytes ++ [0xFF]).toArray⟩ = .ok s ∧
      ∃ table, s.table? TypeRefRow = some table ∧ table.results.toList.map (·.1) =
        [.ok ⟨1, ⟨.assemblyRef, 1⟩, 0x50001, 0xB0000⟩, .ok ⟨2, ⟨.typeRef, 0⟩, 9, 0⟩] := by
  obtain ⟨s, hs, -, hrows⟩ := read_bytes Contents.sample [0xFF]
  refine ⟨s, hs, hrows TypeRefRow
    [⟨1, ⟨.assemblyRef, 1⟩, 0x50001, 0xB0000⟩, ⟨2, ⟨.typeRef, 0⟩, 9, 0⟩] ?_ (by decide)⟩
  exact ⟨by decide, rfl, by decide, rfl⟩

end TableStream

end AliasStubs
