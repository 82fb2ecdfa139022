import QioParquet.Append.Footer
import QioParquet.Lib.BitStream
import QioParquet.Lib.Overwrite
import QioParquet.Lib.Raising
import QioParquet.Write.Writer
import Mathlib.Tactic

/-!
# The output file and its stream

What a write does outside of memory: the entry at the output path, the stream
that is open on it, and carquet's writer as far as it uses the stream.

A stream takes bytes into a buffer and passes them on to the file at some later
time, at the latest when it is closed. Which calls fail, and how many bytes a
stream has passed on after each of them, is not under the program's control: a
script of outcomes says it, one for every call that can fail. The one `fclose` of
a run has an outcome of its own, the number of bytes it can still pass on.
-/

namespace QioParquet
namespace Write

open Lib Read Plan Footer

section Paths

/-- What the directory has at a path. -/
inductive Entry where
  | absent
  | file (bytes : Bytes) (writable : Bool)
  | directory (isEmpty : Bool)
deriving DecidableEq

/-- The entry at the path, and whether its directory lets entries be made and
removed. -/
structure PathState where
  entry : Entry
  parentAllows : Bool
deriving DecidableEq

def Entry.isFile : Entry → Bool
  | .file _ _ => true
  | _ => false

/-- The entries `remove()` can take away. -/
def PathState.removable (p : PathState) : Bool :=
  match p.entry with
  | .absent => false
  | .file _ _ => p.parentAllows
  | .directory isEmpty => isEmpty && p.parentAllows

/-- `qio_path_remove`. -/
def PathState.remove (p : PathState) : PathState :=
  if p.removable then { p with entry := .absent } else p

/-- `fopen` with mode `wb`, where it succeeds. -/
def PathState.create (p : PathState) : Option PathState :=
  match p.entry with
  | .absent => if p.parentAllows then some { p with entry := .file [] true } else none
  | .file _ true => some { p with entry := .file [] true }
  | _ => none

/-- The bytes `fopen` with mode `r+b` finds, where it succeeds. -/
def PathState.update (p : PathState) : Option Bytes :=
  match p.entry with
  | .file bytes true => some bytes
  | _ => none

/-- Bytes that reach the file. -/
def Entry.store (position : Nat) (block : Bytes) : Entry → Entry
  | .file bytes writable => .file (overwrite bytes position block) writable
  | entry => entry

end Paths

section Worlds

/-- `carquet_status_t`, where it is not `CARQUET_OK`. -/
inductive Status where
  | invalidArgument
  | outOfMemory
  | fileWrite
  | other (text : String)
deriving DecidableEq

/-- `carquet_status_string`. -/
def Status.text : Status → String
  | .invalidArgument => "Invalid argument"
  | .outOfMemory => "Out of memory"
  | .fileWrite => "Failed to write file"
  | .other text => text

/-- What happens in a call that can fail. Of the block of a failing `fwrite` the
stream takes some bytes; `moved` bytes go from its buffer to the file. -/
structure Outcome where
  fault : Option Status
  taken : Nat
  moved : Nat
deriving DecidableEq

/-- An open `FILE*`: where its next byte goes, and the bytes it still holds. -/
structure Stream where
  position : Nat
  buffer : Bytes
deriving DecidableEq

/-- `carquet_writer_t`. -/
structure OutputWriter where
  groups : Writer
  columns : List ColumnDef
  infos : List RowGroupInfo
  keyValues : List (Bytes × Option Bytes)
  sortingColumns : List SortingColumn
  compressed : Bool
  started : Bool
  headerWritten : Bool
  fileOffset : Nat
  ownsFile : Bool
  isAppend : Bool

/-- The output, the fields of `qio_write_context_t` that the body changes, and
what is going to happen. `lost` are the bytes a stream could not pass on when it
was closed. -/
structure World where
  path : PathState
  stream : Option Stream
  lost : Bytes
  schema : Bool
  file : Bool
  writer : Option OutputWriter
  finished : Bool
  script : List Outcome
  closing : Nat

/-- The world before the call. -/
def World.start (path : PathState) (script : List Outcome) (closing : Nat) :
    World :=
  ⟨path, none, [], false, false, none, false, script, closing⟩

/-- Calls into carquet. -/
abbrev Carquet := EStateM Status World

/-- The next outcome. Where the script has ended nothing fails any more. -/
def nextOutcome : Carquet Outcome := fun w =>
  match w.script with
  | [] => .ok ⟨none, 0, 0⟩ w
  | outcome :: rest => .ok outcome { w with script := rest }

/-- A call that has no effect here but can fail. -/
def fault : Carquet Unit := do
  let outcome ← nextOutcome
  match outcome.fault with
  | none => return ()
  | some status => throw status

end Worlds

section Streams

/-- The stream takes bytes. -/
def World.take (w : World) (block : Bytes) : World :=
  { w with
    stream := w.stream.map fun s => ⟨s.position, s.buffer ++ block⟩ }

/-- The first `n` bytes of the buffer go to the file. -/
def World.pass (n : Nat) (w : World) : World :=
  match w.stream with
  | none => w
  | some s =>
      { w with
        path := { w.path with entry := w.path.entry.store s.position (s.buffer.take n) }
        stream := some ⟨s.position + (s.buffer.take n).length, s.buffer.drop n⟩ }

/-- `fwrite` of a whole block. -/
def fwrite (block : Bytes) : Carquet Unit := do
  let outcome ← nextOutcome
  match outcome.fault with
  | none => modify fun w => (w.take block).pass outcome.moved
  | some _ =>
      modify fun w => (w.take (block.take outcome.taken)).pass outcome.moved
      throw .fileWrite

/-- `fclose`. The bytes that cannot be passed on are lost, and then it says so. -/
def World.fclose (w : World) : Bool × World :=
  match w.stream with
  | none => (true, w)
  | some s =>
      (decide (s.buffer.length ≤ w.closing),
        { w.pass w.closing with
          stream := none
          lost := s.buffer.drop w.closing })

end Streams

section Files

/-- The footer of a file. Its schema is flat. -/
structure FileMetadata where
  schema : List SchemaLeaf
  rowGroups : List RowGroupEntry
  keyValues : List (Bytes × Option Bytes)
deriving DecidableEq

/-- What carquet's encoders make of row groups and footers: the bytes of the
column chunks of a row group, what the footer will say about a row group at an
offset, and the footer's serialization and parser. -/
structure Format where
  chunks : WrittenGroup → List Bytes
  info : Nat → Nat → WrittenGroup → RowGroupInfo
  serialize : FileMetadata → Bytes
  parse : Bytes → Except String FileMetadata

/-- `VALIDATE_COUNT_STATUS`. -/
def validateCount (count limit : Nat) : Except String Unit :=
  if limit < count then
    .error s!"Invalid count {count} exceeds limit {limit}"
  else
    .ok ()

/-- `CARQUET_MAX_SCHEMA_ELEMENTS`. -/
def maxSchemaElements : Nat := 10000

/-- `CARQUET_MAX_ROW_GROUPS`. -/
def maxRowGroups : Nat := 100000

/-- `CARQUET_MAX_KEY_VALUE_PAIRS`. -/
def maxKeyValuePairs : Nat := 10000

/-- The counts `parquet_parse_file_metadata` looks at, in the order of the fields. The
root is an element of the schema. -/
def validateCounts (footer : FileMetadata) : Except String FileMetadata := do
  validateCount (footer.schema.length + 1) maxSchemaElements
  validateCount footer.rowGroups.length maxRowGroups
  validateCount footer.keyValues.length maxKeyValuePairs
  return footer

/-- `PAR1`. -/
def magic : Bytes := [0x50, 0x41, 0x52, 0x31]

/-- The low 32 bits of a length, lowest byte first. -/
def lengthBytes (n : Nat) : Bytes :=
  leBytes 4 n

/-- A length of four bytes, lowest byte first. -/
def lengthOf (bytes : Bytes) : Nat :=
  littleEndian (bytes.take 4)

/-- Why a file is not opened for an append. -/
inductive AppendFault where
  | open (path : String)
  | tooSmall
  | magic
  | footerLength
  | parse (text : String)
  | leafCount (existing supplied : Nat)
  | typeMismatch (column : Nat)
  | logicalMismatch (column : Nat)
  | nameMismatch (column : Nat)
  | restoreRowGroups
  | other (text : String)
deriving DecidableEq

/-- The text of each message. -/
def AppendFault.message : AppendFault → String
  | .open path => s!"append: cannot open {path} for read+write"
  | .tooSmall => "append: file too small to contain a Parquet footer"
  | .magic => "append: trailing PAR1 magic not found"
  | .footerLength => "append: footer length exceeds file size"
  | .parse text => text
  | .leafCount existing supplied =>
      s!"append: schema leaf count mismatch (existing={existing}, " ++
        s!"supplied={supplied})"
  | .typeMismatch column => s!"append: column {column} type/repetition mismatch"
  | .logicalMismatch column => s!"append: column {column} logical type mismatch"
  | .nameMismatch column => s!"append: column {column} name mismatch"
  | .restoreRowGroups => "append: restore row groups"
  | .other text => text

/-- The footer of a file as `append_parse_existing_footer` finds it: its offset
and its bytes. -/
def locateFooter (bytes : Bytes) : Except AppendFault (Nat × Bytes) :=
  if bytes.length < 12 then
    .error .tooSmall
  else
    let tail := bytes.drop (bytes.length - 8)
    if tail.drop 4 ≠ magic then
      .error .magic
    else
      let footerLength := lengthOf (tail.take 4)
      if bytes.length < footerLength + 8 then
        .error .footerLength
      else
        let offset := bytes.length - 8 - footerLength
        .ok (offset, (bytes.drop offset).take footerLength)

end Files

section Writing

variable (fmt : Format)

/-- `ensure_header_written`. -/
def ensureHeaderWritten (writer : OutputWriter) : Carquet OutputWriter := do
  if writer.headerWritten then
    return writer
  else
    fwrite magic
    return { writer with fileOffset := 4, headerWritten := true }

/-- A column chunk in `carquet_row_group_writer_write_to_file`. -/
def writeBlock (block : Bytes) : Carquet Unit := do
  fault
  if 0 < block.length then
    fwrite block

/-- The row group that is open. -/
def Writer.current (w : Writer) : WrittenGroup :=
  ⟨w.currentRows, w.columns.map WriterColumn.rows⟩

/-- `flush_row_group`. -/
def flushGroup (writer : OutputWriter) : Carquet OutputWriter := do
  if writer.groups.currentRows = 0 then
    return writer
  else
    let group := writer.groups.current
    (fmt.chunks group).forM writeBlock
    fault
    return { writer with
      groups := writer.groups.flushRowGroup
      infos := writer.infos ++ [fmt.info writer.fileOffset writer.infos.length group]
      fileOffset := writer.fileOffset + (fmt.chunks group).flatten.length }

/-- `carquet_writer_write_batch`. -/
def carquetWriteBatch (writer : OutputWriter) (call : Call) :
    Carquet OutputWriter := do
  if writer.groups.columns.length ≤ call.1 then
    throw .invalidArgument
  else
    let writer ← ensureHeaderWritten writer
    fault
    fault
    let writer := { writer with
      started := true
      groups := writer.groups.record call }
    if writer.groups.isFull then
      flushGroup fmt writer
    else
      return writer

/-- `carquet_writer_new_row_group`. -/
def carquetNewRowGroup (writer : OutputWriter) : Carquet OutputWriter := do
  let writer ← ensureHeaderWritten writer
  flushGroup fmt writer

/-- `build_file_metadata`. -/
def buildFileMetadata (schema : List SchemaLeaf) (writer : OutputWriter) :
    FileMetadata where
  schema := schema
  rowGroups := buildRowGroups
    ⟨writer.columns, writer.started, writer.compressed, writer.sortingColumns⟩
    writer.infos
  keyValues := writer.keyValues

/-- `carquet_writer_close`, up to its cleanup. -/
def finishFile (schema : List SchemaLeaf) (writer : OutputWriter) :
    Carquet Unit := do
  let writer ← ensureHeaderWritten writer
  let writer ← flushGroup fmt writer
  fault
  let footer := fmt.serialize (buildFileMetadata schema writer)
  fwrite footer
  fwrite (lengthBytes footer.length)
  fwrite magic

/-- The stream is closed by the writer that owns it. Nothing looks at the result
of this `fclose`. -/
def closeOwned (writer : OutputWriter) (w : World) : World :=
  if writer.ownsFile then w.fclose.2 else w

/-- `carquet_writer_close`. -/
def carquetWriterClose (schema : List SchemaLeaf) (writer : OutputWriter) :
    Carquet Unit := fun w =>
  match finishFile fmt schema writer w with
  | .ok _ w' => .ok () (closeOwned writer w')
  | .error status w' => .error status (closeOwned writer w')

/-- `carquet_writer_abort`. -/
def carquetWriterAbort (writer : OutputWriter) (w : World) : World :=
  let closed := closeOwned writer w
  if writer.ownsFile ∧ ¬ writer.isAppend then
    { closed with path := closed.path.remove }
  else
    closed

end Writing

end Write
end QioParquet
