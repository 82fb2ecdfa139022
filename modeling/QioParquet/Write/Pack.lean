import QioParquet.Write.Prepare
import QioParquet.Read.Delivery
import QioParquet.Lib.Slices
import Mathlib.Tactic

/-!
# The packing loop

`qio_write_body` moves a column into the file one chunk at a time: row groups
outermost, then columns, then chunks of at most 65536 rows. The present values
of a chunk are packed densely, next to one definition level for each row, and
handed to carquet as one batch. `Batch.rows` is what a batch stands for: the rows
carquet gives back for it.
-/

namespace QioParquet
namespace Write

open Lib Read Plan

section Rounding

/-- C's `round` and `llround`: to nearest, halves away from zero. -/
def roundAway (q : ℚ) : ℤ :=
  if 0 ≤ q then ⌊q + 1 / 2⌋ else ⌈q - 1 / 2⌉

@[simp] theorem roundAway_intCast
    (z : ℤ) :
    roundAway (z : ℚ) = z := by
  unfold roundAway
  split_ifs
  · rw [Int.floor_eq_iff]
    constructor <;> linarith
  · rw [Int.ceil_eq_iff]
    constructor <;> linarith

/-- A rounded double as a signed integer; out of range the conversion is
undefined. -/
def roundToInt (width : Nat) : RDouble → Except WriteError (BitVec width)
  | .num q =>
      if -2 ^ (width - 1) ≤ roundAway q ∧ roundAway q < 2 ^ (width - 1) then
        .ok (BitVec.ofInt width (roundAway q))
      else
        .error .undefinedBehaviour
  | _ => .error .undefinedBehaviour

end Rounding

section Values

/-- `Rf_translateCharUTF8`. It gives back the bytes of a string that is ASCII or
marked as UTF-8 as they are, and raises for a string marked as bytes. -/
structure Translator where
  translate : Encoding → Bytes → Except WriteError Bytes
  ascii : ∀ bytes, translate .ascii bytes = .ok bytes
  utf8 : ∀ bytes, translate .utf8 bytes = .ok bytes
  bytes : ∀ bytes, translate .bytes bytes = .error .translation

/-- One element of a REALSXP: `NA` is skipped, `NaN` is not. -/
def packDouble
    (d : RDouble) (convert : RDouble → Except WriteError (PhysValue Bytes)) :
    Except WriteError (Option (PhysValue Bytes)) :=
  if d = .na then
    .ok none
  else do
    let v ← convert d
    return some v

/-- The bytes of a present string. Its length has to fit an `int32_t`. -/
def packString (t : Translator) (mark : Encoding) (bytes : Bytes) :
    Except WriteError (Option (PhysValue Bytes)) := do
  let text ← t.translate mark bytes
  if (cString text).length < 2 ^ 31 then
    return some (.byteArray (cString text))
  else
    .error .undefinedBehaviour

/-- One turn of the packing loops: the value to store, if there is one. -/
def packValue
    (t : Translator) (type : WriteType) (mark : Encoding) (cell : RCell) :
    Except WriteError (Option (PhysValue Bytes)) :=
  match type, cell with
  | .date, .dbl d => packDouble d fun d => do
      let word ← roundToInt 32 d
      return .int32 word
  | .timestamp unit, .dbl d => packDouble d fun d => do
      let word ← roundToInt 64 (scaleUp unit.perSecond d)
      return .int64 word
  | .boolean, .lgl value => .ok (some (.boolean (if value then 1 else 0)))
  | .boolean, .lglNA => .ok none
  | .int32, .int word =>
      if word = naInteger then .ok none else .ok (some (.int32 word))
  | .int64, .dbl d => packDouble d fun d => do
      let word ← roundToInt 64 d
      return .int64 word
  | .float, .dbl d => packDouble d fun d => .ok (.float (castFloat d))
  | .double, .dbl d => packDouble d fun d => .ok (.double d)
  | .string, .str bytes => packString t mark bytes
  | .string, .strNA => .ok none
  | _, _ => .error .undefinedBehaviour

end Values

section Batches

/-- What `carquet_writer_write_batch` is given: the dense values, the definition
levels of an OPTIONAL column, and the number of rows. -/
structure Batch where
  values : List (PhysValue Bytes)
  levels : Option (List Nat)
  count : Nat
deriving DecidableEq

/-- The rows that definition levels and dense values stand for. -/
def denseRows : List Nat → List (PhysValue Bytes) → List Row
  | [], _ => []
  | 0 :: levels, values => .null 0 :: denseRows levels values
  | _ :: levels, v :: values => .present v :: denseRows levels values
  | _ :: _, [] => []

def Batch.rows (b : Batch) : List Row :=
  match b.levels with
  | none => b.values.map .present
  | some levels => denseRows levels b.values

/-- A column of the prepared data frame. -/
structure WriteColumn where
  spec : WriteSpec
  vector : RVector
  marks : List Encoding

/-- The elements of a column, each with the declared encoding it has. -/
def WriteColumn.entries (column : WriteColumn) : List (RCell × Encoding) :=
  column.vector.cells.zipIdx.map fun entry =>
    (entry.1, column.marks.getD entry.2 .native)

@[simp] theorem WriteColumn.length_entries
    (column : WriteColumn) :
    column.entries.length = column.vector.cells.length := by
  simp [WriteColumn.entries]

/-- The packing loop: the dense values and the definition levels. -/
def packLoop (t : Translator) (type : WriteType) :
    List (RCell × Encoding) →
      Except WriteError (List (PhysValue Bytes) × List Nat)
  | [] => .ok ([], [])
  | (cell, mark) :: rest => do
      let v ← packValue t type mark cell
      let (values, levels) ← packLoop t type rest
      match v with
      | some v => return (v :: values, 1 :: levels)
      | none => return (values, 0 :: levels)

/-- Pack the rows of one chunk. A REQUIRED column that has skipped a row is
refused. -/
def packChunk
    (t : Translator) (index : Nat) (column : WriteColumn)
    (slice : Nat × Nat) : Except WriteError Batch := do
  let (values, levels) ← packLoop t column.spec.type
    ((column.entries.drop slice.1).take slice.2)
  if column.spec.nullable then
    return ⟨values, some levels, slice.2⟩
  else if values.length ≠ slice.2 then
    .error (.requiredColumn index)
  else
    return ⟨values, none, slice.2⟩

end Batches

section Chunks

/-- `QIO_WRITE_CHUNK`. -/
def writeChunk : Nat := 65536

/-- Rows moved by one batch. -/
def chunkRows (nrow : Nat) : Nat :=
  max 1 (min nrow writeChunk)

/-- Rows of a row group; 0 asks for one row group. -/
def groupRows (rowGroupRows nrow : Nat) : Nat :=
  max 1 (if 0 < rowGroupRows then rowGroupRows else nrow)

/-- The row groups asked for, as first row and number of rows. A frame without
rows still goes through the loop once, and packs nothing. -/
def rowGroups (rowGroupRows nrow : Nat) : List (Nat × Nat) :=
  slices (groupRows rowGroupRows nrow) 0 nrow

/-- The chunks of one column, in the order they are packed. -/
def columnSlices (rowGroupRows nrow : Nat) : List (Nat × Nat) :=
  (rowGroups rowGroupRows nrow).flatMap fun group =>
    slices (chunkRows nrow) group.1 group.2

/-- The batches of one column, each of them or the error packing it ends with. -/
def packColumn
    (t : Translator) (index : Nat) (column : WriteColumn)
    (rowGroupRows : Nat) : List (Except WriteError Batch) :=
  (columnSlices rowGroupRows column.vector.cells.length).map
    (packChunk t index column)

end Chunks

section PackLaws

variable {t : Translator} {type : WriteType}

/-- The definition level of a row of an OPTIONAL column. -/
def slotLevel (slot : Option (PhysValue Bytes)) : Nat :=
  if slot.isSome then 1 else 0

/-- The row a slot becomes. -/
def slotRow : Option (PhysValue Bytes) → Row
  | none => .null 0
  | some v => .present v

/-- The packing loop keeps the values that are there, and their places. -/
theorem packLoop_eq
    (entries : List (RCell × Encoding)) :
    packLoop t type entries = do
      let slots ← entries.mapM fun entry => packValue t type entry.2 entry.1
      return (slots.reduceOption, slots.map slotLevel) := by
  induction entries with
  | nil =>
      rfl
  | cons entry rest ih =>
      obtain ⟨cell, mark⟩ := entry
      rw [packLoop, ih, List.mapM_cons]
      cases packValue t type mark cell with
      | error e =>
          rfl
      | ok slot =>
          cases rest.mapM fun entry => packValue t type entry.2 entry.1 with
          | error e =>
              rfl
          | ok slots =>
              cases slot <;> rfl

theorem denseRows_slots
    (slots : List (Option (PhysValue Bytes))) :
    denseRows (slots.map slotLevel) slots.reduceOption =
      slots.map slotRow := by
  induction slots with
  | nil =>
      rfl
  | cons slot slots ih =>
      cases slot with
      | none =>
          simpa [slotLevel, denseRows, slotRow] using ih
      | some v =>
          simpa [slotLevel, denseRows, slotRow] using ih

theorem map_reduceOption_of_all
    {slots : List (Option (PhysValue Bytes))}
    (hall : slots.all Option.isSome = true) :
    slots.reduceOption.map Row.present = slots.map slotRow := by
  induction slots with
  | nil =>
      rfl
  | cons slot slots ih =>
      rw [List.all_cons, Bool.and_eq_true] at hall
      cases slot with
      | none =>
          cases hall.1
      | some v =>
          simpa [slotRow] using ih hall.2

/-- A dense list is as long as its rows if and only if no row is missing. -/
theorem length_reduceOption_eq_iff
    {slots : List (Option (PhysValue Bytes))} :
    slots.reduceOption.length = slots.length ↔
      slots.all Option.isSome = true := by
  rw [List.reduceOption_length_eq_iff, List.all_eq_true]

variable {index : Nat} {column : WriteColumn}
  {slots : List (Option (PhysValue Bytes))}

/-- What packing a chunk gives, from the slots of the whole column. -/
theorem packChunk_eq
    (hslots : column.entries.mapM
      (fun entry => packValue t column.spec.type entry.2 entry.1) = .ok slots)
    (slice : Nat × Nat) :
    packChunk t index column slice =
      if column.spec.nullable then
        .ok ⟨((slots.drop slice.1).take slice.2).reduceOption,
          some (((slots.drop slice.1).take slice.2).map slotLevel), slice.2⟩
      else if ((slots.drop slice.1).take slice.2).reduceOption.length ≠
          slice.2 then
        .error (.requiredColumn index)
      else
        .ok ⟨((slots.drop slice.1).take slice.2).reduceOption, none,
          slice.2⟩ := by
  rw [packChunk, packLoop_eq, mapM_slice_ok hslots]
  rfl

end PackLaws

section Cover

/-- The chunks of a column cover its rows, in order. -/
theorem flatMap_columnSlices {α : Type}
    (rowGroupRows : Nat) (xs : List α) :
    (columnSlices rowGroupRows xs.length).flatMap
        (fun slice => (xs.drop slice.1).take slice.2) = xs := by
  have hchunk : 0 < chunkRows xs.length := by
    simp [chunkRows]
  have hgroup : 0 < groupRows rowGroupRows xs.length := by
    simp [groupRows]
  rw [columnSlices, List.flatMap_assoc]
  simp only [flatMap_slices hchunk]
  rw [rowGroups, flatMap_slices hgroup, List.drop_zero, List.take_length]

/-- A chunk lies within the column. -/
theorem mem_columnSlices
    {rowGroupRows nrow : Nat} {slice : Nat × Nat}
    (hmem : slice ∈ columnSlices rowGroupRows nrow) :
    slice.1 + slice.2 ≤ nrow ∧ 0 < slice.2 ∧ slice.2 ≤ writeChunk := by
  obtain ⟨group, hgroup, hslice⟩ := List.mem_flatMap.mp hmem
  have hchunk : 0 < chunkRows nrow := by
    simp [chunkRows]
  have hgroup' := mem_slices (by simp [groupRows]) hgroup
  have hslice' := mem_slices hchunk hslice
  have hbound : chunkRows nrow ≤ writeChunk := by
    simp [chunkRows, writeChunk]
  omega

variable {t : Translator} {index : Nat} {column : WriteColumn}
variable {slots : List (Option (PhysValue Bytes))}

/-- The batch of a chunk, from the slots of the whole column. -/
def sliceBatch
    (nullable : Bool) (slots : List (Option (PhysValue Bytes)))
    (slice : Nat × Nat) : Batch where
  values := ((slots.drop slice.1).take slice.2).reduceOption
  levels :=
    if nullable then
      some (((slots.drop slice.1).take slice.2).map slotLevel)
    else
      none
  count := slice.2

/-- A chunk of a column that may have missing rows, or has none, is packed. -/
theorem packChunk_ok
    (hslots : column.entries.mapM
      (fun entry => packValue t column.spec.type entry.2 entry.1) = .ok slots)
    (hpresent : column.spec.nullable = true ∨ slots.all Option.isSome = true)
    {slice : Nat × Nat}
    (hbound : slice.1 + slice.2 ≤ slots.length) :
    packChunk t index column slice =
      .ok (sliceBatch column.spec.nullable slots slice) := by
  rw [packChunk_eq hslots, sliceBatch]
  cases hnull : column.spec.nullable with
  | true =>
      rfl
  | false =>
      rw [hnull] at hpresent
      have hall := List.all_eq_true.mp (hpresent.resolve_left nofun)
      have hcount : ((slots.drop slice.1).take slice.2).reduceOption.length =
          slice.2 := by
        rw [length_reduceOption_eq_iff.mpr]
        · rw [List.length_take, List.length_drop]
          omega
        · exact List.all_eq_true.mpr fun slot hslot =>
            hall slot (List.drop_subset _ _ (List.take_subset _ _ hslot))
      simp [hcount]

theorem length_slots
    (hslots : column.entries.mapM
      (fun entry => packValue t column.spec.type entry.2 entry.1) =
        .ok slots) :
    slots.length = column.vector.cells.length := by
  rw [← (forall₂_of_mapM_ok hslots).length_eq, WriteColumn.length_entries]

/-- Such a column is packed whole. -/
theorem packColumn_ok
    (hslots : column.entries.mapM
      (fun entry => packValue t column.spec.type entry.2 entry.1) = .ok slots)
    (hpresent : column.spec.nullable = true ∨ slots.all Option.isSome = true)
    (rowGroupRows : Nat) :
    packColumn t index column rowGroupRows =
      ((columnSlices rowGroupRows slots.length).map
        (sliceBatch column.spec.nullable slots)).map .ok := by
  rw [packColumn, ← length_slots hslots, List.map_map]
  refine List.map_congr_left fun slice hslice => ?_
  exact packChunk_ok hslots hpresent (mem_columnSlices hslice).1

/-- A batch stands for the rows of its chunk. -/
theorem rows_sliceBatch
    {nullable : Bool}
    (hpresent : nullable = true ∨ slots.all Option.isSome = true)
    (slice : Nat × Nat) :
    (sliceBatch nullable slots slice).rows =
      ((slots.map slotRow).drop slice.1).take slice.2 := by
  rw [← List.map_drop, ← List.map_take]
  cases nullable with
  | true =>
      exact denseRows_slots _
  | false =>
      have hall := List.all_eq_true.mp (hpresent.resolve_left nofun)
      exact map_reduceOption_of_all (List.all_eq_true.mpr fun slot hslot =>
        hall slot (List.drop_subset _ _ (List.take_subset _ _ hslot)))

/-- The batches of a column stand for its rows. -/
theorem flatMap_rows_sliceBatch
    (nullable : Bool)
    (hpresent : nullable = true ∨ slots.all Option.isSome = true)
    (rowGroupRows : Nat) :
    ((columnSlices rowGroupRows slots.length).map
        (sliceBatch nullable slots)).flatMap Batch.rows =
      slots.map slotRow := by
  have hcover := flatMap_columnSlices rowGroupRows (slots.map slotRow)
  rw [List.length_map] at hcover
  rw [List.flatMap_map]
  simp only [rows_sliceBatch hpresent]
  exact hcover

end Cover

end Write
end QioParquet
