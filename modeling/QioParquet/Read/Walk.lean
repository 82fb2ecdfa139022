import QioParquet.Read.Collect
import QioParquet.Read.ChunkLaws
import Mathlib.Tactic

/-!
# walk_batches()

`qio_walk_body`. The batch reader answers each call with a batch of row-aligned
columns, or fails; after its last answer it reports the end of the data. Every
non-empty batch becomes a data frame of its own and goes to the callback. A
read without columns makes its batches from the row counts alone.
-/

namespace QioParquet
namespace Read

open Lib

section Batches

/-- A batch of the batch reader: its row count, and for each column the status
of an access that failed, or the column and its number of values. -/
structure NativeBatch where
  numRows : ℤ
  columns : List (Except String (AlignedColumn × ℤ))

/-- One answer of `carquet_batch_reader_next` before the end of the data. -/
inductive BatchStep where
  | batch (b : NativeBatch)
  | missing
  | failed (status : String)

/-- One column of `qio_copy_batch`, copied to a freshly allocated vector. -/
def copyBatchTarget
    (batch : NativeBatch) (flags : Nat → Flags) (target : TargetColumn) :
    Except ReadError (RVector × Flags) :=
  match batch.columns[target.index]? with
  | none => .error .undefinedBehaviour
  | some (.error status) => .error (.batchColumn (target.index + 1) status)
  | some (.ok (a, values)) =>
      if values ≠ batch.numRows then
        .error (.batchColumn (target.index + 1) "Success")
      else do
        let (cells, flags) ← copyBatchColumn target.column.spec a
          batch.numRows.toNat (flags target.index)
        checkElements .wrongVectorType target.sexptype cells
        return (⟨target.sexptype,
          overwrite
            (List.replicate batch.numRows.toNat target.sexptype.fresh)
            0 cells⟩, flags)

/-- The column loop of `qio_copy_batch`. -/
def copyBatchTargets
    (batch : NativeBatch) :
    List TargetColumn → (Nat → Flags) →
      Except ReadError (List RVector × (Nat → Flags))
  | [], flags => .ok ([], flags)
  | target :: rest, flags => do
      let (column, raised) ← copyBatchTarget batch flags target
      let (columns, flags) ← copyBatchTargets batch rest
        (Function.update flags target.index raised)
      return (column :: columns, flags)

/-- `qio_copy_batch` into a new data frame. -/
def copyBatch
    (batch : NativeBatch) (targets : List TargetColumn)
    (flags : Nat → Flags) : Except ReadError (Frame × (Nat → Flags)) :=
  if batch.columns.length ≠ targets.length then
    .error .batchColumnCount
  else do
    let (columns, flags) ← copyBatchTargets batch targets flags
    return (⟨columns, batch.numRows.toNat⟩, flags)

/-- The batch loop of `qio_walk_body`: the frames given to the callback, and
the flags raised. -/
def walkLoop (sel : Selection) :
    List BatchStep → (Nat → Flags) →
      Except ReadError (List Frame × (Nat → Flags))
  | [], flags => .ok ([], flags)
  | .failed status :: _, _ => .error (.batchFailed status)
  | .missing :: _, _ => .error .batchMissing
  | .batch b :: rest, flags =>
      if b.numRows < 0 ∨ 2 ^ 31 - 1 < b.numRows then
        .error .batchRowCount
      else if b.numRows = 0 then
        walkLoop sel rest flags
      else do
        let targets ← allocateResult sel
        let (frame, flags) ← copyBatch b targets flags
        let (frames, flags) ← walkLoop sel rest flags
        return (frame :: frames, flags)

/-- `qio_walk_empty_columns`: batches without columns. -/
def walkEmptyColumns
    (batchSize : Nat) (groups : List (Nat × RowGroup)) : List Frame :=
  groups.flatMap fun entry =>
    (slices batchSize 0 entry.2.numRows.toNat).map fun slice =>
      ⟨[], slice.2⟩

/-- `qio_walk_body`: the frames the callback sees, and each column's flags.
`source` is the batch reader, or why it could not be created. -/
def walk
    (ctx : CollectContext) (source : Except String (List BatchStep)) :
    Except ReadError (List Frame × List Flags) :=
  if ctx.selection.totalRows = 0 then
    .ok ([], ctx.selection.columns.map fun _ => Flags.none)
  else if ctx.selection.columns = [] then
    .ok (walkEmptyColumns ctx.batchSize ctx.groups, [])
  else
    match source with
    | .error reason => .error (.batchReader reason)
    | .ok steps => do
        let (frames, flags) ←
          walkLoop ctx.selection steps fun _ => Flags.none
        return (frames,
          (List.range ctx.selection.columns.length).map flags)

end Batches

section Binding

/-- A data frame without rows. -/
def zeroRowFrame (targets : List TargetColumn) : Frame where
  columns := targets.map fun target => ⟨target.sexptype, []⟩
  rowCount := 0

/-- The rows of a frame under those of another. -/
def bindRows (top bottom : Frame) : Frame where
  columns := List.zipWith
    (fun first second => ⟨first.sexptype, first.cells ++ second.cells⟩)
    top.columns bottom.columns
  rowCount := top.rowCount + bottom.rowCount

/-- All frames, in order, under a first one. -/
def bindFrames (top : Frame) (frames : List Frame) : Frame :=
  frames.foldl bindRows top

end Binding

section Delivery

/-- A batch stands for some rows of each selected column. -/
def NativeBatch.Delivers
    (b : NativeBatch) (sel : Selection) (rows : Nat → List Row) : Prop :=
  ∀ i s, sel.columns[i]? = some s →
    ((rows i).length : ℤ) = b.numRows ∧
      ∀ a, b.columns[i]? = some (.ok (a, b.numRows)) → a.Delivers (rows i)

/-- The rows of a selected column, over all selected row groups. -/
def CollectContext.columnRows
    (ctx : CollectContext) (s : SelectedColumn) : List Row :=
  ctx.groups.flatMap fun entry => entry.2.chunk s.fileColumn

/-- The batch reader hands out the selected chunks in file order, whatever its
batch boundaries are. -/
def BatchesDeliver (ctx : CollectContext) (steps : List BatchStep) : Prop :=
  ∃ parts : List (NativeBatch × (Nat → List Row)),
    steps = parts.map (fun part => .batch part.1) ∧
      (∀ part ∈ parts, part.1.Delivers ctx.selection part.2) ∧
      ∀ i s, ctx.selection.columns[i]? = some s →
        parts.flatMap (fun part => part.2 i) = ctx.columnRows s

/-- The column readers of the selected chunks hand out the chunks' rows, as
values with definition levels and, in preserve mode, as dictionary indices. -/
def ColumnsDeliver (ctx : CollectContext) : Prop :=
  ∀ entry ∈ ctx.groups, ∀ s ∈ ctx.selection.columns, ∀ attempt r,
    ctx.native.getColumn attempt entry.1 s.fileColumn = .ok r →
    r.Faithful s.spec (entry.2.chunk s.fileColumn) ∧
      r.FaithfulIndices s.spec (entry.2.chunk s.fileColumn)

end Delivery

end Read
end QioParquet
