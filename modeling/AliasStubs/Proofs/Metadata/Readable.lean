import AliasStubs.Proofs.Metadata.Decoding
import AliasStubs.Proofs.Metadata.TableStream

/-!
# Every row of a table stream is readable

A table stream is accepted if the tables that its header promises fit into its bytes. The header
stores the row counts of the tables that are marked, one behind the other, so where the tables start
is told by how many bits of the mask are set. From there on the tables stand back to back: a table
starts where all tables with smaller numbers end, and a table without rows takes nothing.

So every table has all the bytes that its rows take, and a row of it can be read unless a tag in it
is bad, whatever the bytes of the stream are.

## Main definitions

* `Layout.place` : where a table starts, told from the row counts and the widths.
* `TableStream.start` : where the tables start, told from the header.
* `TableStream.storedCount` : the row count that the header stores for a table.

## Main results

* `Layout.counts_of_read` : the row counts are those that the header stores.
* `TableStream.lookup_of_locate` : a table with rows is found at its place.
* `TableStream.rows_readable` : **every row of a table stream is readable**.
-/

namespace AliasStubs

open Bytes Reading

variable {l : Layout} {data : ByteArray}

/-! ### Places -/

namespace TableId

/-- Before each table stand the tables with smaller numbers. -/
theorem all_eq_append (t : TableId) : all = all.take t.number ++ t :: all.drop (t.number + 1) := by
  cases t <;> rfl

theorem not_mem_take (t : TableId) : t ∉ all.take t.number := by
  cases t <;> decide

end TableId

namespace Layout

/-- The number of bytes that a table takes. -/
def tableSize (l : Layout) (t : TableId) : Nat :=
  l.rowCount t * l.rowSize t

/-- The number of bytes that the tables `ts` take. -/
def tablesSize (l : Layout) (ts : List TableId) : Nat :=
  ts.foldr (fun t size => l.tableSize t + size) 0

/-- Where a table starts, if the first one starts at `start`: behind all tables with smaller
numbers. -/
def place (l : Layout) (start : Nat) (t : TableId) : Nat :=
  start + l.tablesSize (TableId.all.take t.number)

@[simp] theorem tablesSize_nil (l : Layout) : l.tablesSize [] = 0 := rfl

@[simp] theorem tablesSize_cons (l : Layout) (t : TableId) (ts : List TableId) :
    l.tablesSize (t :: ts) = l.tableSize t + l.tablesSize ts := rfl

@[simp] theorem tablesSize_append (l : Layout) (ts us : List TableId) :
    l.tablesSize (ts ++ us) = l.tablesSize ts + l.tablesSize us := by
  induction ts with
  | nil => simp
  | cons t ts ih => rw [List.cons_append, tablesSize_cons, ih, tablesSize_cons, Nat.add_assoc]

theorem tableSize_eq_zero {t : TableId} (h : l.rowCount t = 0) : l.tableSize t = 0 := by
  rw [tableSize, h, Nat.zero_mul]

/-- **A table starts where the one before it ends.** -/
theorem place_succ (l : Layout) (start : Nat) {t u : TableId} (h : u.number = t.number + 1) :
    l.place start u = l.place start t + l.tableSize t := by
  rw [place, place, h, List.take_add_one, TableId.all_getElem?_number]
  simp [Nat.add_assoc]

/-- **Tables do not overlap**, and stand in the order of their numbers. -/
theorem place_add_tableSize_le (l : Layout) (start : Nat) {t u : TableId}
    (h : t.number < u.number) : l.place start t + l.tableSize t ≤ l.place start u := by
  obtain ⟨between, hbetween⟩ := Nat.exists_eq_add_of_le h
  rw [place, place, hbetween, Nat.succ_eq_add_one, List.take_add, List.take_add_one,
    TableId.all_getElem?_number]
  simp only [tablesSize_append, Option.toList_some, tablesSize_cons, tablesSize_nil]
  omega

end Layout

namespace TableStream

/-- The tables are taken one by one: one without rows is skipped, and the bytes of one with rows are
there. -/
theorem locate_cons {t : TableId} {ts : List TableId} {offset : Nat}
    {tables : List (TableId × ByteArray)} (h : locate data l (t :: ts) offset = .ok tables) :
    (l.rowCount t = 0 ∧ locate data l ts offset = .ok tables) ∨
      ∃ rest, l.rowCount t ≠ 0 ∧ offset + l.tableSize t ≤ data.size ∧
        tables = (t, data.extract offset (offset + l.tableSize t)) :: rest ∧
        locate data l ts (offset + l.tableSize t) = .ok rest := by
  rw [locate] at h
  split at h
  · exact .inl ⟨‹_›, h⟩
  · obtain ⟨bytes, hslice, h⟩ := seq_eq_ok_iff.mp h
    obtain ⟨rest, hrest, h⟩ := seq_eq_ok_iff.mp h
    cases h
    unfold slice at hslice
    split at hslice
    · cases hslice
      exact .inr ⟨rest, ‹_›, ‹_›, rfl, hrest⟩
    · cases hslice

/-- Exactly the tables with rows are found, in order. -/
theorem map_fst_of_locate {ts : List TableId} {offset : Nat} {tables : List (TableId × ByteArray)}
    (h : locate data l ts offset = .ok tables) :
    tables.map (·.1) = ts.filter (l.rowCount · ≠ 0) := by
  induction ts generalizing offset tables with
  | nil =>
      cases h
      rfl
  | cons t ts ih =>
      obtain ⟨hzero, htail⟩ | ⟨rest, hzero, -, rfl, htail⟩ := locate_cons h
      · rw [ih htail, List.filter_cons_of_neg (by simpa using hzero)]
      · rw [List.map_cons, ih htail, List.filter_cons_of_pos (by simpa using hzero)]

/-- **A table with rows is found at its place.** The tables before it, which have smaller numbers,
add up to the offset at which the search comes to it. -/
theorem lookup_of_locate {front back : List TableId} {t : TableId} {offset : Nat}
    {tables : List (TableId × ByteArray)}
    (h : locate data l (front ++ t :: back) offset = .ok tables) (hfront : t ∉ front)
    (hcount : l.rowCount t ≠ 0) :
    offset + l.tablesSize front + l.tableSize t ≤ data.size ∧
      tables.lookup t = some (data.extract (offset + l.tablesSize front)
        (offset + l.tablesSize front + l.tableSize t)) := by
  induction front generalizing offset tables with
  | nil =>
      obtain ⟨hzero, -⟩ | ⟨rest, -, hle, rfl, -⟩ := locate_cons h
      · exact absurd hzero hcount
      · exact ⟨hle, List.lookup_cons_self⟩
  | cons u front ih =>
      obtain ⟨hne, hfront⟩ := not_or.mp (mt List.mem_cons.mpr hfront)
      rw [Layout.tablesSize_cons, ← Nat.add_assoc]
      obtain ⟨hzero, htail⟩ | ⟨rest, -, -, rfl, htail⟩ := locate_cons h
      · rw [Layout.tableSize_eq_zero hzero, Nat.add_zero]
        exact ih htail hfront
      · rw [List.lookup_cons, beq_eq_false_iff_ne.mpr hne]
        exact ih htail hfront

end TableStream

/-! ### Row counts -/

/-- How many of the lowest `i` bits of `n` are set. -/
def bitsBelow (n i : Nat) : Nat :=
  ((List.range i).filter n.testBit).length

theorem bitsBelow_le (n i : Nat) : bitsBelow n i ≤ i := by
  have hle := List.length_filter_le n.testBit (List.range i)
  rwa [List.length_range] at hle

/-- A number has no bits beyond its length. -/
theorem bitsBelow_eq_of_lt {n i j : Nat} (hn : n < 2 ^ i) (hij : i ≤ j) :
    bitsBelow n j = bitsBelow n i := by
  have hrange : List.range j = List.range i ++ (List.range (j - i)).map (i + ·) := by
    rw [← List.range_add, Nat.add_sub_cancel' hij]
  have hnone : ((List.range (j - i)).map (i + ·)).filter n.testBit = [] := by
    refine List.filter_eq_nil_iff.mpr fun bit hbit => ?_
    obtain ⟨k, -, rfl⟩ := List.mem_map.mp hbit
    have hlt : n < 2 ^ (i + k) :=
      Nat.lt_of_lt_of_le hn (Nat.pow_le_pow_right (by decide) (Nat.le_add_right i k))
    rw [Nat.testBit_lt_two_pow hlt]
    decide
  rw [bitsBelow, hrange, List.filter_append, hnone, List.append_nil, bitsBelow]

namespace Layout

/-- How many of the tables `ts` are marked. -/
def marked (valid : Nat) (ts : List TableId) : Nat :=
  ((ts.map TableId.number).filter valid.testBit).length

/-- The tables that are marked are told by their bits. -/
theorem marked_take (valid i : Nat) (hi : i ≤ TableId.count) :
    marked valid (TableId.all.take i) = bitsBelow valid i := by
  have hall : TableId.all.map TableId.number = List.range TableId.count := rfl
  rw [marked, List.map_take, hall, List.take_range, Nat.min_eq_left hi, bitsBelow]

theorem marked_cons (valid : Nat) (t : TableId) (ts : List TableId) :
    marked valid (t :: ts) = (if valid.testBit t.number then 1 else 0) + marked valid ts := by
  rw [marked, List.map_cons, List.filter_cons]
  split
  · rw [List.length_cons, Nat.add_comm, marked]
  · rw [Nat.zero_add, marked]

/-- The row count of a table is read from the next four bytes if the table is marked. -/
theorem count_of_read {valid : Nat} {t : TableId} {n offset next : Nat}
    (h : (if valid.testBit t.number then uint data 4 else pure 0) offset = .ok n next) :
    n = (if valid.testBit t.number then littleEndian data 4 offset else 0) ∧
      next = offset + 4 * if valid.testBit t.number then 1 else 0 := by
  by_cases hmarked : valid.testBit t.number
  · rw [if_pos hmarked, uint] at h
    split at h <;> cases h
    rw [if_pos hmarked, if_pos hmarked]
    exact ⟨rfl, rfl⟩
  · rw [if_neg hmarked] at h
    obtain ⟨rfl, rfl⟩ := pure_eq_ok_iff.mp h
    rw [if_neg hmarked, if_neg hmarked]
    exact ⟨rfl, rfl⟩

/-- A run of row counts is read from the numbers that stand one behind the other, one for each table
that is marked. -/
theorem counts_of_mapM {valid : Nat} {ts : List TableId} {counts : List Nat} {offset next : Nat}
    (h : (ts.mapM fun t => if valid.testBit t.number then uint data 4 else pure 0) offset =
      .ok counts next) :
    next = offset + 4 * marked valid ts ∧ ∀ front t back, ts = front ++ t :: back →
      counts[front.length]? = some (if valid.testBit t.number then
        littleEndian data 4 (offset + 4 * marked valid front) else 0) := by
  induction ts generalizing counts offset with
  | nil =>
      obtain ⟨-, rfl⟩ := pure_eq_ok_iff.mp h
      exact ⟨rfl, fun front t back hts => by simp at hts⟩
  | cons u ts ih =>
      rw [List.mapM_cons] at h
      obtain ⟨n, mid, hn, h⟩ := bind_eq_ok_iff.mp h
      obtain ⟨rest, mid', hrest, h⟩ := bind_eq_ok_iff.mp h
      obtain ⟨rfl, rfl⟩ := pure_eq_ok_iff.mp h
      obtain ⟨hnext, hcounts⟩ := ih hrest
      obtain ⟨rfl, rfl⟩ := count_of_read hn
      refine ⟨by rw [hnext, marked_cons]; omega, fun front t back hts => ?_⟩
      cases front with
      | nil =>
          obtain ⟨rfl, -⟩ := List.cons.inj hts
          rfl
      | cons v front =>
          obtain ⟨rfl, rfl⟩ := List.cons.inj hts
          rw [List.length_cons, List.getElem?_cons_succ, hcounts front t back rfl, marked_cons,
            Nat.mul_add, ← Nat.add_assoc]

/-- **The row counts are those that the header stores**, behind which reading goes on. -/
theorem counts_of_read {valid heapFlags offset next : Nat}
    (h : Layout.read data valid heapFlags offset = .ok l next) :
    valid < 2 ^ TableId.count ∧ next = offset + 4 * bitsBelow valid TableId.count ∧
      ∀ t, l.rowCount t = if valid.testBit t.number then
        littleEndian data 4 (offset + 4 * bitsBelow valid t.number) else 0 := by
  rw [Layout.read] at h
  split at h
  · cases h
  · rename_i hvalid
    obtain ⟨counts, mid, hmap, h⟩ := bind_eq_ok_iff.mp h
    obtain ⟨rfl, rfl⟩ := pure_eq_ok_iff.mp h
    obtain ⟨hnext, hcounts⟩ := counts_of_mapM hmap
    refine ⟨?_, ?_, fun t => ?_⟩
    · rw [not_not, Nat.shiftRight_eq_div_pow] at hvalid
      exact (Nat.div_eq_zero_iff_lt (Nat.two_pow_pos _)).mp hvalid
    · rw [hnext, ← marked_take valid _ (Nat.le_refl _)]
      rfl
    · have hlt := t.number_lt_count
      have hlength : (TableId.all.take t.number).length = t.number := by
        rw [List.length_take]
        exact Nat.min_eq_left (Nat.le_of_lt hlt)
      have hcount := hcounts _ t _ t.all_eq_append
      rw [hlength, marked_take _ _ (Nat.le_of_lt hlt)] at hcount
      simp only [ofCounts, Array.getD_eq_getD_getElem?, List.getElem?_toArray, hcount,
        Option.getD_some]

end Layout

/-! ### Streams -/

namespace TableStream

variable {s : TableStream}

/-- Where the tables start: behind the header of 24 bytes, four bytes for every bit of the mask that
is set, and four more bytes if the flags announce them. -/
def start (data : ByteArray) : Nat :=
  24 + 4 * bitsBelow (littleEndian data 8 8) 64 + if (littleEndian data 1 6).testBit 6 then 4 else 0

/-- The row count that the header stores for a table: zero if the table is not marked, and otherwise
the number behind those of the marked tables before it. -/
def storedCount (data : ByteArray) (t : TableId) : Nat :=
  if (littleEndian data 8 8).testBit t.number then
    littleEndian data 4 (24 + 4 * bitsBelow (littleEndian data 8 8) t.number)
  else
    0

/-- What a stream that is accepted has been read from. -/
theorem exists_of_read (h : read data = .ok s) :
    ∃ next,
      Layout.read data (littleEndian data 8 8) (littleEndian data 1 6) 24 = .ok s.layout next ∧
      locate data s.layout TableId.all
        (if (littleEndian data 1 6).testBit 6 then next + 4 else next) = .ok s.tables := by
  rw [read] at h
  split at h
  · cases h
  obtain ⟨heapFlags, hflags, h⟩ := seq_eq_ok_iff.mp h
  obtain ⟨valid, hvalid, h⟩ := seq_eq_ok_iff.mp h
  rw [eq_of_uintAt hflags, eq_of_uintAt hvalid] at h
  split at h
  · cases h
  obtain ⟨⟨layout, offset⟩, hlayout, h⟩ := seq_eq_ok_iff.mp h
  obtain ⟨tables, htables, h⟩ := seq_eq_ok_iff.mp h
  obtain ⟨_, -, h⟩ := seq_eq_ok_iff.mp h
  obtain ⟨_, -, h⟩ := seq_eq_ok_iff.mp h
  obtain ⟨_, -, h⟩ := seq_eq_ok_iff.mp h
  cases h
  rw [readLayout] at hlayout
  split at hlayout
  · rename_i hread
    cases hlayout
    exact ⟨_, hread, htables⟩
  · cases hlayout

/-- The row counts of a stream are those that its header stores, and the tables are looked for
behind them. -/
theorem located_of_read (h : read data = .ok s) :
    (∀ t, s.layout.rowCount t = storedCount data t) ∧
      locate data s.layout TableId.all (start data) = .ok s.tables := by
  obtain ⟨next, hlayout, htables⟩ := exists_of_read h
  obtain ⟨hvalid, hnext, hcounts⟩ := Layout.counts_of_read hlayout
  refine ⟨hcounts, ?_⟩
  have hbits : bitsBelow (littleEndian data 8 8) 64 =
      bitsBelow (littleEndian data 8 8) TableId.count := bitsBelow_eq_of_lt hvalid (by decide)
  rw [start, hbits, ← hnext]
  split at htables <;> rename_i hflag
  · rw [if_pos hflag]
    exact htables
  · rw [if_neg hflag]
    exact htables

/-- A table has bytes exactly if it has rows, and these are all that its rows take. -/
theorem bytes?_of_read (h : read data = .ok s) (t : TableId) :
    (s.layout.rowCount t = 0 → s.bytes? t = none) ∧ (s.layout.rowCount t ≠ 0 →
      s.layout.place (start data) t + s.layout.tableSize t ≤ data.size ∧
        s.bytes? t = some (data.extract (s.layout.place (start data) t)
          (s.layout.place (start data) t + s.layout.tableSize t))) := by
  obtain ⟨-, hlocate⟩ := located_of_read h
  constructor
  · intro hzero
    refine List.lookup_eq_none_iff.mpr fun p hp => bne_iff_ne.mpr fun heq => ?_
    have hmem : t ∈ s.tables.map (·.1) := List.mem_map.mpr ⟨p, hp, heq.symm⟩
    rw [map_fst_of_locate hlocate] at hmem
    simpa [hzero] using List.of_mem_filter hmem
  · intro hcount
    rw [t.all_eq_append] at hlocate
    exact lookup_of_locate hlocate t.not_mem_take hcount

/-- Exactly the tables with rows are there. -/
theorem isSome_bytes?_of_read (h : read data = .ok s) (t : TableId) :
    (s.bytes? t).isSome ↔ s.layout.rowCount t ≠ 0 := by
  by_cases hzero : s.layout.rowCount t = 0
  · simp [(bytes?_of_read h t).1 hzero, hzero]
  · simp [((bytes?_of_read h t).2 hzero).2, hzero]

/-- A table that is there has all the bytes that its rows take. -/
theorem eq_extract_of_bytes? (h : read data = .ok s) {t : TableId} {bytes : ByteArray}
    (hbytes : s.bytes? t = some bytes) :
    s.layout.place (start data) t + s.layout.tableSize t ≤ data.size ∧
      bytes = data.extract (s.layout.place (start data) t)
        (s.layout.place (start data) t + s.layout.tableSize t) ∧
      bytes.size = s.layout.tableSize t := by
  have hcount : s.layout.rowCount t ≠ 0 := by
    rw [← isSome_bytes?_of_read h, hbytes]
    rfl
  obtain ⟨hle, hextract⟩ := (bytes?_of_read h t).2 hcount
  obtain rfl := Option.some.inj (hbytes.symm.trans hextract)
  refine ⟨hle, rfl, ?_⟩
  rw [ByteArray.size_extract]
  omega

/-- **Every row of a table stream is readable.** Exactly the tables with rows are there, in
ascending order of number. They stand back to back behind the header, and each has all the bytes that its rows
take. So every row can be read from its own bytes, unless one of its tags selects no table. -/
theorem rows_readable (h : read data = .ok s) :
    (∀ t, s.layout.rowCount t = storedCount data t) ∧
    (∀ t, (s.bytes? t).isSome ↔ s.layout.rowCount t ≠ 0) ∧
    s.tables.map (·.1) = TableId.all.filter (s.layout.rowCount · ≠ 0) ∧
    (∃ place : TableId → Nat, place .module = start data ∧
      (∀ t u, u.number = t.number + 1 →
        place u = place t + s.layout.rowCount t * s.layout.rowSize t) ∧
      (∀ t u, t.number < u.number →
        place t + s.layout.rowCount t * s.layout.rowSize t ≤ place u) ∧
      ∀ t bytes, s.bytes? t = some bytes →
        place t + s.layout.rowCount t * s.layout.rowSize t ≤ data.size ∧
        bytes = data.extract (place t) (place t + s.layout.rowCount t * s.layout.rowSize t) ∧
        bytes.size = s.layout.rowCount t * s.layout.rowSize t) ∧
    ∀ (α : Type) [TableRow α], ((s.table? α).isSome ↔ s.layout.rowCount (TableRow.table α) ≠ 0) ∧
      ∀ table, s.table? α = some table →
        table.rowCount = s.layout.rowCount (TableRow.table α) ∧ ∀ rid,
          (rid = 0 ∨ table.rowCount < rid → table.get rid = .error .outOfBounds) ∧
          (1 ≤ rid → rid ≤ table.rowCount →
            ((∃ row, table.get rid = .ok row) ∨ ∃ e, table.get rid = .error e ∧
              Cells.BadTag table.layout table.data (TableRow.table α).columns
                ((rid - 1) * table.rowSize) e) ∧
            table.get rid ≠ .error .outOfBounds ∧
            table.get rid = (TableRow.read α table.layout
              (table.data.extract ((rid - 1) * table.rowSize) (rid * table.rowSize)) rid).atOffset
                0) := by
  obtain ⟨hcounts, hlocate⟩ := located_of_read h
  refine ⟨hcounts, isSome_bytes?_of_read h, map_fst_of_locate hlocate,
    ⟨s.layout.place (start data), rfl, fun t u => s.layout.place_succ _,
      fun t u => s.layout.place_add_tableSize_le _, fun t _ => eq_extract_of_bytes? h⟩,
    fun α _ => ⟨?_, ?_⟩⟩
  · rw [table?, Option.isSome_map]
    exact isSome_bytes?_of_read h _
  · rintro table htable
    obtain ⟨bytes, hfound, rfl⟩ := Option.map_eq_some_iff.mp htable
    obtain ⟨-, -, hsize⟩ := eq_extract_of_bytes? h hfound
    refine ⟨rfl, fun rid => ⟨Table.get_eq_outOfBounds, fun hpos hle => ?_⟩⟩
    have hget := Table.get_eq_ok_or_badTag hsize hpos hle
    refine ⟨hget, fun herror => ?_, Table.get_eq_read_extract hsize hpos hle⟩
    obtain ⟨row, hrow⟩ | ⟨e, he, _, _, _, _, _, _, _, rfl⟩ := hget
    · cases hrow.symm.trans herror
    · cases he.symm.trans herror

/-- A stream with four more bytes before its only table, two references to members. The tag of the
second one selects no table. -/
def Contents.badTag : Contents where
  reserved := [1, 2, 3, 4]
  majorVersion := 2
  minorVersion := 0
  heapFlags := 0x40
  padding := 1
  valid := 0x400
  sorted := 0x400
  rowCount t := if t = .memberRef then 2 else 0
  extra := [5, 6, 7, 8]
  body t := if t = .memberRef then [9, 0, 1, 0, 2, 0, 15, 0, 3, 0, 4, 0] else []
  reserved_length := rfl
  valid_ne_zero := by decide
  valid_lt := by decide
  sorted_lt := by decide
  rowCount_lt t := by cases t <;> decide
  rowCount_absent t := by cases t <;> decide
  extra_length := rfl
  body_length t := by cases t <;> decide

/-- The second reference has all its bytes, and fails by its tag. -/
theorem rows_readable_badTag :
    ∃ s table, read ⟨Contents.badTag.bytes.toArray⟩ = .ok s ∧ s.table? MemberRefRow = some table ∧
      storedCount ⟨Contents.badTag.bytes.toArray⟩ .memberRef = 2 ∧
      start ⟨Contents.badTag.bytes.toArray⟩ = 32 ∧
      table.get 0 = .error .outOfBounds ∧ table.get 3 = .error .outOfBounds ∧
      table.get 1 = .ok ⟨1, ⟨.typeRef, 1⟩, 1, 2⟩ ∧
      table.get 2 = .error (.malformed (.badTag 7 .memberRefParent)) ∧
      table.get 2 =
        (TableRow.read MemberRefRow table.layout ⟨#[15, 0, 3, 0, 4, 0]⟩ 2).atOffset 0 := by
  have hholds : HoldsAt ⟨Contents.badTag.bytes.toArray⟩ 0 Contents.badTag.bytes := by
    simpa using holdsAt_zero Contents.badTag.bytes []
  have hread := read_of_holdsAt hholds
  obtain ⟨hcounts, -, -, -, htables⟩ := rows_readable hread
  have htable : Contents.badTag.stream.table? MemberRefRow =
      some ⟨⟨(Contents.badTag.body .memberRef).toArray⟩, 2, Contents.badTag.layout⟩ := rfl
  obtain ⟨-, hget⟩ := (htables MemberRefRow).2 _ htable
  exact ⟨_, _, hread, htable, (hcounts .memberRef).symm, by decide, (hget 0).1 (by decide),
    (hget 3).1 (by decide), rfl, rfl, ((hget 2).2 (by decide) (by decide)).2.2⟩

end TableStream

end AliasStubs
