import QioParquet.Read.File
import QioParquet.Lib.Slices
import Mathlib.Tactic

/-!
# Reading one column chunk on the main thread

Strings and lists are built on the main thread, one column chunk at a time. A
text chunk first tries its dictionary: entries become R strings once and rows
are filled by index. The attempt may be declined, or given up after it has
already written some rows; the chunk is then read again from its first row by
the materializing loop. A reading is recorded as the blocks it stores, in
order, so that what it leaves in the destination can be compared with what the
materializing loop alone would leave there.
-/

namespace QioParquet
namespace Read

open Lib

section Blocks

/-- A store: the first row, and the elements. -/
abbrev Block := Nat × List RCell

/-- What some stores leave in a destination. -/
def applyBlocks (dst : List RCell) (blocks : List Block) : List RCell :=
  blocks.foldl (fun dst block => overwrite dst block.1 block.2) dst

@[simp] theorem applyBlocks_nil
    (dst : List RCell) :
    applyBlocks dst [] = dst :=
  rfl

theorem applyBlocks_append
    (dst : List RCell) (blocks blocks' : List Block) :
    applyBlocks dst (blocks ++ blocks') =
      applyBlocks (applyBlocks dst blocks) blocks' := by
  simp [applyBlocks]

end Blocks

section Jobs

/-- One column chunk to be read: where it is, what it is read as, the vector
type and first row of its destination, and its number of rows. -/
structure ChunkJob where
  rowGroup : Nat
  fileColumn : Nat
  spec : ColumnSpec
  sexptype : SexpType
  offset : Nat
  rows : Nat

/-- One turn of the materializing loop. -/
def materializeStep
    (native : NativeReader) (job : ChunkJob) (r : ColumnReader)
    (state : List Block × Flags) (slice : Nat × Nat) :
    Except ReadError (List Block × Flags) :=
  match r.readBatch slice.1 slice.2 with
  | none =>
      .error (.decodeFailed job.spec.name (job.rowGroup + 1)
        (native.columnEncodings job.rowGroup job.fileColumn))
  | some b =>
      if b.count ≠ slice.2 then
        .error (.shortRead job.spec.name (job.rowGroup + 1)
          (slice.1 + b.count) job.rows)
      else do
        let (cells, flags) ← scatterDenseColumn job.spec b state.2
        checkElements .wrongVectorType job.sexptype cells
        return (state.1 ++ [(job.offset + slice.1, cells)], flags)

/-- The materializing loop, `chunk` rows at a time. -/
def materializeChunk
    (native : NativeReader) (job : ChunkJob) (r : ColumnReader)
    (chunk : Nat) (flags : Flags) : Except ReadError (List Block × Flags) :=
  (slices chunk 0 job.rows).foldlM (materializeStep native job r) ([], flags)

end Jobs

section Dictionaries

/-- Bytes of a dictionary page, addressed from its start. -/
def pageMemory (data : Bytes) : Memory :=
  fun k => data.getD k 0

/-- The little-endian length in front of a dictionary entry. -/
def entryLength (data : Bytes) (offset : Nat) : Nat :=
  (data.getD offset 0).toNat ||| (data.getD (offset + 1) 0).toNat <<< 8 |||
    (data.getD (offset + 2) 0).toNat <<< 16 |||
    (data.getD (offset + 3) 0).toNat <<< 24

/-- One entry of `qio_dictionary_strings`. -/
def dictionaryEntry
    (data : Bytes) (column : String) (i offset : Nat) :
    Except ReadError Bytes :=
  if data.length < offset + 4 then
    .error (.dictionaryEntryStart column (i + 1) data.length)
  else if 2 ^ 31 - 1 < entryLength data offset ∨
      data.length < offset + 4 + entryLength data offset then
    .error (.dictionaryEntryLength column (i + 1) (entryLength data offset)
      data.length)
  else do
    let value : ByteArrayRef := ⟨some (offset + 4), entryLength data offset⟩
    checkStringBytes (pageMemory data) value column i
    return value.bytes (pageMemory data)

/-- The entries at some offsets, from entry `i` on. -/
def dictionaryEntries
    (data : Bytes) (column : String) :
    Nat → List Nat → Except ReadError (List Bytes)
  | _, [] => .ok []
  | i, offset :: offsets => do
      let entry ← dictionaryEntry data column i offset
      let entries ← dictionaryEntries data column (i + 1) offsets
      return entry :: entries

/-- `qio_dictionary_strings`. -/
def dictionaryStrings
    (data : Bytes) (count : Nat) (offsets : List Nat) (column : String) :
    Except ReadError (List Bytes) :=
  if offsets.length < count then
    .error .undefinedBehaviour
  else
    dictionaryEntries data column 0 (offsets.take count)

/-- The string of one present row, by dictionary index. -/
def dictionaryElement
    (dict : List Bytes) (column : String) (row index : Nat) :
    Except ReadError RCell :=
  match dict[index]? with
  | some entry => .ok (.str entry)
  | none =>
      .error (.dictionaryIndex column index dict.length (row + 1))

/-- `qio_scatter_dictionary_strings`. -/
def scatterDictionaryStrings
    (dict : List Bytes) (b : IndexBatch) (maxDef : Nat) (column : String) :
    Except ReadError (List RCell) :=
  scatterLoop .undefinedBehaviour .strNA (dictionaryElement dict column) 0
    (presenceFlags b.levels b.count maxDef) b.indices

/-- Which way a text chunk was read. -/
inductive ReadPath where
  | declined
  | fallback
  | dictionary
deriving DecidableEq, Repr

/-- The index loop: any batch that fails or comes back short gives up. -/
def dictionaryLoop
    (job : ChunkJob) (r : ColumnReader) (dict : List Bytes) :
    List (Nat × Nat) → List Block → Except ReadError (ReadPath × List Block)
  | [], blocks => .ok (.dictionary, blocks)
  | slice :: rest, blocks =>
      match r.readIndices slice.1 slice.2 with
      | none => .ok (.fallback, blocks)
      | some b =>
          if b.count = 0 ∨ b.count ≠ slice.2 then
            .ok (.fallback, blocks)
          else do
            let cells ←
              scatterDictionaryStrings dict b job.spec.maxDef job.spec.name
            checkElements .wrongVectorType job.sexptype cells
            dictionaryLoop job r dict rest
              (blocks ++ [(job.offset + slice.1, cells)])

/-- `qio_collect_dictionary_chunk`. -/
def collectDictionaryChunk
    (native : NativeReader) (job : ChunkJob) (r : ColumnReader)
    (chunk : Nat) : Except ReadError (ReadPath × List Block) :=
  match native.chunkMetadata job.rowGroup job.fileColumn with
  | none => .ok (.declined, [])
  | some info =>
      if ¬ info.hasDictionaryPage then
        .ok (.declined, [])
      else if ¬ r.setPreserve then
        .ok (.fallback, [])
      else if ¬ r.loadPage then
        .ok (.fallback, [])
      else
        match r.dictionary with
        | none => .ok (.fallback, [])
        | some page =>
            match page.offsets with
            | none => .ok (.fallback, [])
            | some offsets =>
                if page.count < 0 then
                  .ok (.fallback, [])
                else do
                  let dict ← dictionaryStrings page.data page.count.toNat
                    offsets job.spec.name
                  dictionaryLoop job r dict (slices chunk 0 job.rows) []

/-- Open a column chunk for the given attempt. -/
def openColumn
    (native : NativeReader) (job : ChunkJob) (attempt : Nat) :
    Except ReadError ColumnReader :=
  match native.getColumn attempt job.rowGroup job.fileColumn with
  | .ok r => .ok r
  | .error reason =>
      .error (.openColumn (job.fileColumn + 1) (job.rowGroup + 1) reason)

/-- One column chunk of the main-thread pass of `qio_collect_body`. -/
def collectMainChunk
    (native : NativeReader) (job : ChunkJob) (chunk : Nat) (flags : Flags) :
    Except ReadError (List Block × Flags) := do
  let r ← openColumn native job 0
  if job.spec.kind = .text ∧ job.spec.type = .byteArray then
    let (path, blocks) ← collectDictionaryChunk native job r chunk
    if path = .dictionary then
      return (blocks, flags)
    else
      let r ← openColumn native job 1
      let (rest, flags) ← materializeChunk native job r chunk flags
      return (blocks ++ rest, flags)
  else
    materializeChunk native job r chunk flags

end Dictionaries

end Read
end QioParquet
