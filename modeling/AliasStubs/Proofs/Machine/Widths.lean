import AliasStubs.Proofs.Machine.Rows
import AliasStubs.Proofs.Metadata.Extent

/-!
# Widths that are written down twice

The columns of every table are listed once. The width of a row and the reader of a row both go by
that list, so they cannot disagree. Where there is no list, the columns of a table are written down
in two places: in a sum, from which tables are found one behind the other, and in a sequence of
reads, from which the columns get their names. Each of them asks in its own way how wide an index
is, and nothing but their agreement keeps the rows of a table apart.

Here a machine has them in two places. The sum of every table comes to the width of its rows, and
never leaves its byte; every sequence of reads comes to the reader of its row. So a row that is read
takes exactly the bytes that are summed up for it.

## Main definitions

* `Machine.Info.ofCounts` : the layout with some row counts.
* `Machine.Info.rowBytes` : the width of a row, written out as a sum.
* `Machine.RowKind` : the kinds of rows that are decoded; `RowKind.read` their readers, written out.

## Main results

* `Info.rowBytes_of` : **the sums are the widths of the rows**.
* `RowKind.read_of` : **the readers are the readers of the rows**, and never fault.
* `RowKind.read_takes_rowBytes` : **a row that is read takes the bytes that are summed up for it**.
-/

namespace AliasStubs.Machine

open Bytes Reading

variable {data : ByteArray}

/-! ### Layouts -/

namespace Info

/-- The row counts of all tables, from those of some that are listed by number. Tables past the end
of the list have no rows, and counts past the last table are dropped. -/
def resized (counts : List Nat) : List Nat :=
  (counts ++ List.replicate TableId.count 0).take TableId.count

/-- The layout with the given row counts. -/
def ofCounts (counts : List Nat) (wideStrings wideGuids wideBlobs : Bool) : Checked Info :=
  ofRows (resized counts).toArray wideStrings wideGuids wideBlobs

@[simp] theorem length_resized (counts : List Nat) : (resized counts).length = TableId.count := by
  simp [resized]

/-- The row count of a table stays what it is. -/
theorem getD_resized (counts : List Nat) (t : TableId) :
    (resized counts).toArray.getD t.number 0 = counts.toArray.getD t.number 0 := by
  simp only [resized, Array.getD_eq_getD_getElem?, List.getElem?_toArray,
    List.getElem?_take_of_lt t.number_lt_count, List.getElem?_append, List.getElem?_replicate]
  split
  · rfl
  · rename_i hge
    rw [List.getElem?_eq_none (Nat.not_lt.mp hge)]
    split <;> rfl

/-- **A layout is made from row counts without a fault.** -/
theorem ofCounts_eq (counts : List Nat) (wideStrings wideGuids wideBlobs : Bool) :
    ofCounts counts wideStrings wideGuids wideBlobs =
      .ok (of (.ofCounts counts wideStrings wideGuids wideBlobs)) := by
  have hlayout : Layout.ofCounts (resized counts) wideStrings wideGuids wideBlobs =
      .ofCounts counts wideStrings wideGuids wideBlobs := by
    simp only [Layout.ofCounts, getD_resized]
  have hrows := rows_ofCounts (length_resized counts) wideStrings wideGuids wideBlobs
  have hmade := ofRows_of (.ofCounts counts wideStrings wideGuids wideBlobs)
  rw [← hlayout, hrows, hlayout] at hmade
  exact hmade

end Info

/-! ### Sums -/

/-- A width that is computed. The sum of two widths has to fit into a byte. -/
def Width : Type :=
  Checked Nat

namespace Width

instance (n : Nat) : OfNat Width n :=
  ⟨(.ok n : Checked Nat)⟩

/-- The sum of two widths. -/
def add (x y : Checked Nat) : Checked Nat := do
  Word.byte.add (← x) (← y)

instance : Add Width :=
  ⟨add⟩

end Width

namespace Info

/-- The width of an index into a heap. -/
def heapBytes (wide : Bool) : Checked Nat :=
  return if wide then 4 else 2

open TableId CodedKind in
/-- The width of a row, written out as a sum for every table. -/
def rowBytes (info : Info) (table : TableId) : Checked Nat :=
  let s : Width := heapBytes info.wideStrings
  let g : Width := heapBytes info.wideGuids
  let b : Width := heapBytes info.wideBlobs
  let t (u : TableId) : Width := info.tableWidth u
  let c (k : CodedKind) : Width := info.codedWidth k
  let size : Width := match table with
    | module => 2 + s + g + g + g
    | typeRef => c resolutionScope + s + s
    | typeDef => 4 + s + s + c typeDefOrRef + t field + t methodDef
    | fieldPtr => t field
    | field => 2 + s + b
    | methodPtr => t methodDef
    | methodDef => 4 + 2 + 2 + s + b + t param
    | paramPtr => t param
    | param => 2 + 2 + s
    | interfaceImpl => t typeDef + c typeDefOrRef
    | memberRef => c memberRefParent + s + b
    | constant => 2 + c hasConstant + b
    | customAttribute => c hasCustomAttribute + c customAttributeType + b
    | fieldMarshal => c hasFieldMarshal + b
    | declSecurity => 2 + c hasDeclSecurity + b
    | classLayout => 2 + 4 + t typeDef
    | fieldLayout => 4 + t field
    | standAloneSig => b
    | eventMap => t typeDef + t event
    | eventPtr => t event
    | event => 2 + s + c typeDefOrRef
    | propertyMap => t typeDef + t property
    | propertyPtr => t property
    | property => 2 + s + b
    | methodSemantics => 2 + t methodDef + c hasSemantics
    | methodImpl => t typeDef + c methodDefOrRef + c methodDefOrRef
    | moduleRef => s
    | typeSpec => b
    | implMap => 2 + c memberForwarded + s + t moduleRef
    | fieldRva => 4 + t field
    | encLog => 4 + 4
    | encMap => 4
    | assembly => 4 + 2 + 2 + 2 + 2 + 4 + b + s + s
    | assemblyProcessor => 4
    | assemblyOs => 4 + 4 + 4
    | assemblyRef => 2 + 2 + 2 + 2 + 4 + b + s + s + b
    | assemblyRefProcessor => 4 + t assemblyRef
    | assemblyRefOs => 4 + 4 + 4 + t assemblyRef
    | file => 4 + s + b
    | exportedType => 4 + 4 + s + s + c implementation
    | manifestResource => 4 + 4 + s + c implementation
    | nestedClass => t typeDef + t typeDef
    | genericParam => 2 + 2 + c typeOrMethodDef + s
    | methodSpec => c methodDefOrRef + b
    | genericParamConstraint => t genericParam + c typeDefOrRef
  size

/-- The sum for a table is that over its columns, from left to right. -/
theorem exists_rowBytes_eq (info : Info) (table : TableId) : ∃ c cs, table.columns = c :: cs ∧
    info.rowBytes table =
      cs.foldl (fun width c => Width.add width (info.columnWidth c)) (info.columnWidth c) := by
  cases table <;> exact ⟨_, _, rfl, rfl⟩

/-- Widths that are computed and then added come to what they come to if each is added as it is
computed. -/
theorem foldl_add_eq (info : Info) (cs : List Column) (first : Checked Nat) :
    cs.foldl (fun width c => Width.add width (info.columnWidth c)) first =
      first >>= fun width =>
        cs.foldlM (fun width c => do Word.byte.add width (← info.columnWidth c)) width := by
  induction cs generalizing first with
  | nil => exact (bind_pure first).symm
  | cons c cs ih =>
      rw [List.foldl_cons, ih, Width.add]
      simp only [bind_assoc, List.foldlM_cons]

/-- **The sums are the widths of the rows**, and none of them leaves its byte. -/
theorem rowBytes_of (l : Layout) (table : TableId) :
    (of l).rowBytes table = .ok (l.rowSize table) := by
  obtain ⟨c, cs, hcolumns, hsum⟩ := (of l).exists_rowBytes_eq table
  have hfirst := l.columnWidth_le c
  have hlength := length_columns_le table
  rw [hcolumns, List.length_cons] at hlength
  rw [hsum, foldl_add_eq, columnWidth_of, ok_bind, foldlM_columnWidth l cs _ (by omega),
    Layout.rowSize, hcolumns, Layout.columnsWidth_cons]

end Info

/-! ### Readers -/

/-- Reads an index into a table, in the width that its row count asks for. -/
def readTableIndex (info : Info) (data : ByteArray) (t : TableId) : Stateful Nat Nat := do
  let width ← info.tableWidth t
  readIndex data (width == 4)

/-- Reads a coded index and splits it. -/
def readCoded (info : Info) (data : ByteArray) (k : CodedKind) : Stateful Nat CodedIndex := do
  let width ← info.codedWidth k
  let value ← readIndex data (width == 4)
  decode k value

/-- The kinds of rows that are decoded. -/
inductive RowKind
  | typeRef
  | typeDef
  | methodDef
  | param
  | memberRef
  | customAttribute
  | typeSpec
  | nestedClass
  | genericParam
  deriving DecidableEq, Repr

namespace RowKind

/-- The rows of a kind. -/
abbrev Row : RowKind → Type
  | typeRef => TypeRefRow
  | typeDef => TypeDefRow
  | methodDef => MethodDefRow
  | param => ParamRow
  | memberRef => MemberRefRow
  | customAttribute => CustomAttributeRow
  | typeSpec => TypeSpecRow
  | nestedClass => NestedClassRow
  | genericParam => GenericParamRow

instance : (k : RowKind) → TableRow k.Row
  | typeRef => inferInstanceAs (TableRow TypeRefRow)
  | typeDef => inferInstanceAs (TableRow TypeDefRow)
  | methodDef => inferInstanceAs (TableRow MethodDefRow)
  | param => inferInstanceAs (TableRow ParamRow)
  | memberRef => inferInstanceAs (TableRow MemberRefRow)
  | customAttribute => inferInstanceAs (TableRow CustomAttributeRow)
  | typeSpec => inferInstanceAs (TableRow TypeSpecRow)
  | nestedClass => inferInstanceAs (TableRow NestedClassRow)
  | genericParam => inferInstanceAs (TableRow GenericParamRow)

/-- Reads the row numbered `rid`, one column after the other. -/
def read (info : Info) (data : ByteArray) (rid : Nat) : (k : RowKind) → Stateful Nat k.Row
  | typeRef => do
    let resolutionScope ← readCoded info data .resolutionScope
    let typeName ← readIndex data info.wideStrings
    let typeNamespace ← readIndex data info.wideStrings
    return { rid, resolutionScope, typeName, typeNamespace }
  | typeDef => do
    let flags ← uint data 4
    let typeName ← readIndex data info.wideStrings
    let typeNamespace ← readIndex data info.wideStrings
    let extends_ ← readCoded info data .typeDefOrRef
    let fieldList ← readTableIndex info data .field
    let methodList ← readTableIndex info data .methodDef
    return { rid, flags, typeName, typeNamespace, extends_, fieldList, methodList }
  | methodDef => do
    let rva ← uint data 4
    let implFlags ← uint data 2
    let flags ← uint data 2
    let name ← readIndex data info.wideStrings
    let signature ← readIndex data info.wideBlobs
    let paramList ← readTableIndex info data .param
    return { rid, rva, implFlags, flags, name, signature, paramList }
  | param => do
    let flags ← uint data 2
    let sequence ← uint data 2
    let name ← readIndex data info.wideStrings
    return { rid, flags, sequence, name }
  | memberRef => do
    let parent ← readCoded info data .memberRefParent
    let name ← readIndex data info.wideStrings
    let signature ← readIndex data info.wideBlobs
    return { rid, parent, name, signature }
  | customAttribute => do
    let parent ← readCoded info data .hasCustomAttribute
    let constructor ← readCoded info data .customAttributeType
    let value ← readIndex data info.wideBlobs
    return { rid, parent, constructor, value }
  | typeSpec => do
    let signature ← readIndex data info.wideBlobs
    return { rid, signature }
  | nestedClass => do
    let nestedClass ← readTableIndex info data .typeDef
    let enclosingClass ← readTableIndex info data .typeDef
    return { rid, nestedClass, enclosingClass }
  | genericParam => do
    let number ← uint data 2
    let flags ← uint data 2
    let owner ← readCoded info data .typeOrMethodDef
    let name ← readIndex data info.wideStrings
    return { rid, number, flags, owner, name }

/-- A reader that is written out reads the columns of its table. -/
theorem read_eq_readRow (info : Info) (data : ByteArray) (rid : Nat) (k : RowKind) :
    k.read info data rid = readRow k.Row info data rid := by
  cases k
  -- Where the reads stand in one sequence, they are the same ones.
  all_goals
    simp only [readRow, TableRow.table, TableId.columns, readCells, bind_assoc, pure_bind]
    rfl

/-- **The readers are the readers of the rows**, and never fault. -/
theorem read_of (hdata : Addressable data) (l : Layout) (rid : Nat) (k : RowKind) :
    k.read (.of l) data rid = liftReader (TableRow.read k.Row l data rid) :=
  (read_eq_readRow _ data rid k).trans (readRow_eq hdata l k.Row rid)

end RowKind

/-! ### Agreement -/

/-- A reader without faults counts its offsets from another start if the reader that it comes from
does. -/
theorem liftReader_eq_countedFrom {α : Type} {r r' : Reader α} {start : Nat}
    (h : r start = countedFrom start (r' 0)) :
    liftReader r start = countedFrom start (liftReader r' 0) := by
  rw [liftReader, liftReader, h]
  cases r' 0 <;> rfl

namespace RowKind

/-- **A row that is read takes the bytes that are summed up for it.** In every layout, and from
wherever a row is read, reading is out of bounds only if fewer bytes than these remain. If as many
remain, the row is read up to where they end, or one of its tags selects no table, and reading stops
behind it. No other bytes than these are seen. -/
theorem read_takes_rowBytes (counts : List Nat) (wideStrings wideGuids wideBlobs : Bool)
    (hdata : Addressable data) (k : RowKind) (rid offset : Nat) :
    ∃ info size, Info.ofCounts counts wideStrings wideGuids wideBlobs = .ok info ∧
      info.rowBytes (TableRow.table k.Row) = .ok size ∧
      size = (Layout.ofCounts counts wideStrings wideGuids wideBlobs).rowSize
        (TableRow.table k.Row) ∧
      k.read info data rid = liftReader (TableRow.read k.Row
        (.ofCounts counts wideStrings wideGuids wideBlobs) data rid) ∧
      (∀ row stop, k.read info data rid offset = .ok row stop → offset + size ≤ data.size) ∧
      (∀ stop, k.read info data rid offset = .error (.failure .outOfBounds) stop →
        data.size < offset + size) ∧
      (offset + size ≤ data.size →
        (∃ row, k.read info data rid offset = .ok row (offset + size)) ∨
        ∃ c width place, Column.coded c ∈ (TableRow.table k.Row).columns ∧
          info.codedWidth c = .ok width ∧ offset ≤ place ∧ place + width ≤ offset + size ∧
          c.SelectsNone (c.tagAt data width place) ∧
          k.read info data rid offset =
            .error (.failure (.malformed (.badTag (c.tagAt data width place) c)))
              (place + width)) ∧
      k.read info data rid offset =
        countedFrom offset (k.read info (data.extract offset (offset + size)) rid 0) := by
  have hmade := Info.ofCounts_eq counts wideStrings wideGuids wideBlobs
  generalize Layout.ofCounts counts wideStrings wideGuids wideBlobs = l at hmade ⊢
  refine ⟨.of l, _, hmade, Info.rowBytes_of l _, rfl, read_of hdata l rid k, ?_⟩
  rw [read_of hdata, read_of (hdata.extract _ _)]
  have hparts := liftReader_eq_countedFrom (TableRow.read_eq_countedFrom k.Row l data rid offset)
  have hends := TableRow.read_cases k.Row l data rid offset
  generalize l.rowSize (TableRow.table k.Row) = size at hparts hends ⊢
  obtain ⟨hle, row, hrow⟩ | ⟨hlt, stop, hrow⟩ | ⟨c, place, hmem, hplace, hend, hnone, hrow⟩ := hends
  · have hread := liftReader_of_eq_ok hrow
    refine ⟨?_, ?_, ?_, hparts⟩
    · intro _ _ _
      exact hle
    · intro _ h
      cases hread.symm.trans h
    · intro _
      exact .inl ⟨row, hread⟩
  · have hread := liftReader_of_eq_error hrow
    refine ⟨?_, ?_, ?_, hparts⟩
    · intro _ _ h
      cases hread.symm.trans h
    · intro _ _
      exact hlt
    · intro hle
      exact absurd hle (Nat.not_le.mpr hlt)
  · have hread := liftReader_of_eq_error hrow
    refine ⟨?_, ?_, ?_, hparts⟩
    · intro _ _ h
      cases hread.symm.trans h
    · intro _ h
      cases hread.symm.trans h
    · intro _
      exact .inr ⟨c, l.codedWidth c, place, hmem, Info.codedWidth_of l c, hplace, hend, hnone,
        hread⟩

/-- The bytes of an attribute that is applied to the first method. Its constructor is wide, since
there are 8192 methods, and has a reserved tag. One byte stands before it. -/
def reservedBytes : ByteArray :=
  ⟨#[0xFF, 0x20, 0, 0, 0, 8, 0, 0, 0, 5, 0]⟩

/-- All bytes of the attribute are there. Reading stops behind its constructor. -/
theorem read_takes_rowBytes_reserved :
    Addressable reservedBytes ∧
    ∃ info, Info.ofCounts [0, 0, 0, 0, 0, 0, 8192] false false false = .ok info ∧
      info.rowBytes .customAttribute = .ok 10 ∧
      customAttribute.read info reservedBytes 7 1 =
        .error (.failure (.malformed (.badTag 0 .customAttributeType))) 9 ∧
      customAttribute.read info reservedBytes 7 1 = countedFrom 1
        (customAttribute.read info ⟨#[0x20, 0, 0, 0, 8, 0, 0, 0, 5, 0]⟩ 7 0) := by
  have hdata : Addressable reservedBytes := by
    unfold Addressable
    decide
  obtain ⟨info, size, hinfo, hsize, rfl, -, -, -, -, hparts⟩ :=
    read_takes_rowBytes [0, 0, 0, 0, 0, 0, 8192] false false false hdata customAttribute 7 1
  obtain rfl := Except.ok.inj ((Info.ofCounts_eq _ _ _ _).symm.trans hinfo)
  exact ⟨hdata, _, hinfo, hsize, rfl, hparts⟩

end RowKind

end AliasStubs.Machine
