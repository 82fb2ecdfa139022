import QioParquet.Write.Pack
import QioParquet.Lib.Buffering
import Mathlib.Tactic

/-!
# The row groups of the writer

carquet's writer buffers the batches of a row group and keeps, for each column,
how many values it has been given. A row group ends when qio asks for a new one,
when the file is closed, and by itself: after a batch that brings the estimated
size over the target while all columns stand at the same row.
-/

namespace QioParquet
namespace Write

open Lib Read Plan

section Estimates

/-- `INT64_MAX`. -/
def int64Max : Nat := 2 ^ 63 - 1

/-- `saturating_add_i64`. -/
def saturatingAdd (lhs rhs : Nat) : Nat :=
  if rhs = 0 ∨ int64Max - rhs ≤ lhs then int64Max else lhs + rhs

/-- Lengths of the byte arrays of a batch. -/
def byteLengths (values : List (PhysValue Bytes)) : Nat :=
  (values.map fun v =>
    match v with
    | .byteArray bytes => bytes.length
    | _ => 0).sum

/-- The values of a batch, in `estimate_column_batch_bytes`. Of a BYTE_ARRAY
batch all entries of the buffer are counted, those behind the present values
with length 0. -/
def estimateValues (type : PhysicalType) (b : Batch) : Nat :=
  match type with
  | .boolean => b.count
  | .int32 => b.count * 4
  | .int64 => b.count * 8
  | .float => b.count * 4
  | .double => b.count * 8
  | .byteArray =>
      let total := b.count * 4 + byteLengths b.values
      if int64Max < total then int64Max else saturatingAdd 0 total
  | _ => 0

/-- `estimate_column_batch_bytes`. -/
def estimateColumnBatchBytes (s : WriteSpec) (b : Batch) : Nat :=
  if b.count = 0 then
    0
  else if s.nullable ∧ b.levels.isSome then
    saturatingAdd (estimateValues s.type.physical b) (b.count * 2)
  else
    estimateValues s.type.physical b

/-- The target size of a row group, 128 MB. -/
def rowGroupTarget : Nat := 134217728

end Estimates

section State

/-- A column of the current row group. -/
structure WriterColumn where
  spec : WriteSpec
  rows : List Row
  valuesWritten : Nat
deriving DecidableEq

/-- A row group in the file: its number of rows, and the rows of its chunks. -/
structure WrittenGroup where
  numRows : Nat
  chunks : List (List Row)
deriving DecidableEq

/-- What `carquet_writer_t` knows of the row groups. -/
structure Writer where
  columns : List WriterColumn
  currentRows : Nat
  estimatedBytes : Nat
  rowGroups : List WrittenGroup
deriving DecidableEq

/-- A batch for a column. -/
abbrev Call := Nat × Batch

def Writer.create (specs : List WriteSpec) : Writer :=
  ⟨specs.map fun s => ⟨s, [], 0⟩, 0, 0, []⟩

/-- A column takes a batch. -/
def WriterColumn.add (column : WriterColumn) (b : Batch) : WriterColumn :=
  ⟨column.spec, column.rows ++ b.rows, column.valuesWritten + b.count⟩

def WriterColumn.reset (column : WriterColumn) : WriterColumn :=
  ⟨column.spec, [], 0⟩

/-- What a batch adds to the estimated size. -/
def Writer.estimate (w : Writer) (call : Call) : Nat :=
  match w.columns[call.1]? with
  | some column => estimateColumnBatchBytes column.spec call.2
  | none => 0

/-- The batch goes into the current row group. Rows are counted in the first
column. -/
def Writer.record (w : Writer) (call : Call) : Writer where
  columns := w.columns.mapIdx fun i column =>
    if i = call.1 then column.add call.2 else column
  currentRows := if call.1 = 0 then w.currentRows + call.2.count else w.currentRows
  estimatedBytes := saturatingAdd w.estimatedBytes (w.estimate call)
  rowGroups := w.rowGroups

/-- `current_row_group_is_aligned`. -/
def Writer.isAligned (w : Writer) : Bool :=
  0 < w.currentRows &&
    w.columns.all fun column => column.valuesWritten == w.currentRows

/-- The automatic flush of `carquet_writer_write_batch` comes now. No column qio
writes is repeated, so `writer_supports_aligned_auto_flush` asks for a column
only. -/
def Writer.isFull (w : Writer) : Bool :=
  0 < w.columns.length && rowGroupTarget < w.estimatedBytes && w.isAligned

/-- `flush_row_group`. -/
def Writer.flushRowGroup (w : Writer) : Writer :=
  if w.currentRows = 0 then
    w
  else
    ⟨w.columns.map WriterColumn.reset, 0, 0,
      w.rowGroups ++ [⟨w.currentRows, w.columns.map WriterColumn.rows⟩]⟩

/-- `carquet_writer_write_batch`, for a column there is. -/
def Writer.push : Writer → Call → Writer :=
  pushItem Writer.record Writer.isFull Writer.flushRowGroup

/-- `carquet_writer_write_batch`, as qio calls it for the chunk from `row` on. -/
def Writer.writeBatch (w : Writer) (column row : Nat) (b : Batch) :
    Except WriteError Writer :=
  if column < w.columns.length then
    .ok (w.push (column, b))
  else
    .error (.writeBatch column row "Invalid argument")

end State

section Loop

variable (t : Translator)

/-- The chunks of one column in one row group. -/
def writeColumnChunks
    (nrow : Nat) (group : Nat × Nat) (w : Writer) (entry : WriteColumn × Nat) :
    Except WriteError Writer :=
  (slices (chunkRows nrow) group.1 group.2).foldlM
    (fun w slice => do
      let b ← packChunk t entry.2 entry.1 slice
      w.writeBatch entry.2 slice.1 b) w

/-- One row group, column after column. -/
def writeGroup
    (columns : List WriteColumn) (nrow : Nat) (w : Writer)
    (group : Nat × Nat) : Except WriteError Writer :=
  columns.zipIdx.foldlM (writeColumnChunks t nrow group) w

/-- The row groups, with `carquet_writer_new_row_group` between them. -/
def writeGroups
    (columns : List WriteColumn) (nrow : Nat) :
    Writer → List (Nat × Nat) → Except WriteError Writer
  | w, [] => .ok w
  | w, [group] => writeGroup t columns nrow w group
  | w, group :: next :: rest => do
      let w ← writeGroup t columns nrow w group
      writeGroups columns nrow w.flushRowGroup (next :: rest)

/-- `(R_xlen_t)requested`, and 0 for one row group. Out of range the conversion
is undefined. -/
def requestedRows : Option RDouble → Except WriteError Nat
  | none => .ok 0
  | some (.num q) =>
      if q < 2 ^ 63 then .ok (truncate q).toNat else .error .undefinedBehaviour
  | some _ => .error .undefinedBehaviour

/-- The row groups a write leaves in the file: the loop of `qio_write_body`, and
the last flush of `carquet_writer_close`. The number of row groups is computed as
`(nrow + group_rows - 1) / group_rows`, where `nrow + group_rows` is a signed sum. -/
def writeRowGroups
    (columns : List WriteColumn) (nrow : Nat) (rowGroupSize : Option RDouble) :
    Except WriteError (List WrittenGroup) := do
  let requested ← requestedRows rowGroupSize
  if int64Max < nrow + groupRows requested nrow then
    .error .undefinedBehaviour
  else
    let w ← writeGroups t columns nrow
      (Writer.create (columns.map WriteColumn.spec))
      (rowGroups requested nrow)
    return w.flushRowGroup.rowGroups

end Loop

end Write
end QioParquet
