import QioParquet.Write.Output
import Mathlib.Tactic

/-!
# The body of a write and its cleanup

`qio_write_body` declares the schema, opens the output, configures the writer,
hands over the batches of every row group and closes the file. It can raise at any
of its calls. `qio_write_cleanup` runs after it in every case and sees nothing but
the fields the body has left in its context.
-/

namespace QioParquet
namespace Write

open Lib Read Plan Footer

section Jobs

/-- A string of R, with its declared encoding. -/
abbrev MarkedText := Encoding × Bytes

/-- What the body is called with: the other fields of `qio_write_context_t`. A
metadata value of `none` is `NA`. -/
structure WriteJob where
  columns : List WriteColumn
  nrow : Nat
  rowGroupRows : Nat
  append : Bool
  path : String
  metadata : List (MarkedText × Option MarkedText)
  sortingColumns : Option (List SortingColumn)
  compressed : Bool

/-- Why the body raises. -/
inductive BodyError where
  | createSchema (text : String)
  | addColumn (name : String)
  | cannotAppend (path : String) (why : AppendFault)
  | cannotCreate (path : String) (why : Option String)
  | dictionary (column : Nat) (status : Status)
  | addMetadata (key : Bytes) (status : Status)
  | sortOrder (status : Status)
  | allocation
  | write (error : WriteError)
deriving DecidableEq

/-- The text of each message, with the bytes of a key as they are. R's own errors
have none of qio's. -/
def BodyError.message : BodyError → String
  | .createSchema text => s!"qio: failed to create schema: {text}"
  | .addColumn name => s!"qio: failed to add column '{name}' to schema"
  | .cannotAppend path why => s!"qio: cannot append to '{path}': " ++ why.message
  | .cannotCreate path none => s!"qio: cannot create '{path}'"
  | .cannotCreate path (some text) => s!"qio: cannot create '{path}': {text}"
  | .dictionary column status =>
      s!"qio: cannot dictionary-encode column {column + 1}: " ++ status.text
  | .addMetadata key status =>
      "qio: failed to add metadata key '" ++
        String.ofList (key.map fun byte => Char.ofNat byte.toNat) ++ "': " ++
        status.text
  | .sortOrder status =>
      "qio: failed to declare the sort order: " ++ status.text
  | .allocation => ""
  | .write error => error.message

/-- The body raises and returns in the state it has reached. -/
abbrev Body := EStateM BodyError World

/-- A call that can fail, without an effect here. -/
def may (raise : Status → BodyError) : Body Unit :=
  EStateM.adaptExcept raise fault

def orRaise {α : Type} : Except WriteError α → Body α
  | .ok a => pure a
  | .error e => throw (.write e)

/-- A call on the writer of the context. -/
def useWriter (call : OutputWriter → Carquet OutputWriter)
    (raise : Status → BodyError) : Body Unit := fun w =>
  match w.writer with
  | none => .error (.write .undefinedBehaviour) w
  | some writer =>
      match call writer w with
      | .ok writer' w' => .ok () { w' with writer := some writer' }
      | .error status w' => .error (raise status) w'

end Jobs

section Opening

variable (fmt : Format)

/-- The schema of the file, before there is a file. A column name is translated
first. -/
def declareSchema (job : WriteJob) : Body Unit := do
  may fun status => .createSchema status.text
  modify fun w => { w with schema := true }
  job.columns.forM fun column => do
    may fun _ => .write .translation
    may fun _ => .addColumn column.spec.name

def Logical.id : Logical → Nat
  | .string => 0
  | .enum => 1
  | .json => 2
  | .decimal _ => 3
  | .date => 4
  | .time _ => 5
  | .timestamp _ _ => 6
  | .integer _ _ => 7
  | .null => 8
  | .uuid => 9
  | .float16 => 10
  | .other => 11

/-- One round of `append_validate_schema_matches`. -/
def leafMismatch (user file : SchemaLeaf) (index : Nat) : Option AppendFault :=
  if user.physicalType ≠ file.physicalType ∨ user.repetition ≠ file.repetition ∨
      (user.physicalType = .fixedLenByteArray ∧
        user.typeLength ≠ file.typeLength) then
    some (.typeMismatch index)
  else if user.logicalType.map Logical.id ≠ file.logicalType.map Logical.id then
    some (.logicalMismatch index)
  else if user.leaf.name ≠ file.leaf.name then
    some (.nameMismatch index)
  else
    none

/-- `append_validate_schema_matches`. -/
def schemaMismatch (user file : List SchemaLeaf) : Option AppendFault :=
  if file.length ≠ user.length then
    some (.leafCount file.length user.length)
  else
    ((user.zip file).zipIdx.filterMap fun entry =>
      leafMismatch entry.1.1 entry.1.2 entry.2).head?

def WriteJob.schema (job : WriteJob) : List SchemaLeaf :=
  job.columns.map fun column => column.spec.schemaLeaf

def WriteColumn.columnDef (column : WriteColumn) : ColumnDef :=
  ⟨column.spec.type.physical, column.spec.type.logical, none⟩

/-- The writer `carquet_writer_create_file` makes. -/
def OutputWriter.create (job : WriteJob) : OutputWriter where
  groups := Writer.create (job.columns.map WriteColumn.spec)
  columns := job.columns.map WriteColumn.columnDef
  infos := []
  keyValues := []
  sortingColumns := []
  compressed := job.compressed
  started := false
  headerWritten := false
  fileOffset := 0
  ownsFile := false
  isAppend := false

/-- The writer for an append at an offset, with what the file's footer says. -/
def OutputWriter.appending (job : WriteJob) (offset : Nat) (old : FileMetadata)
    (restored : List RowGroupInfo) : OutputWriter :=
  { OutputWriter.create job with
    infos := restored
    keyValues := old.keyValues
    headerWritten := true
    fileOffset := offset
    ownsFile := true
    isAppend := true }

/-- What `carquet_writer_open_append` finds in a file: the offset, the footer and
the restored row groups. -/
def readForAppend (job : WriteJob) (bytes : Bytes) :
    Except AppendFault (Nat × FileMetadata × List RowGroupInfo) := do
  let (offset, footer) ← locateFooter bytes
  let old ← (fmt.parse footer).mapError .parse
  match schemaMismatch job.schema old.schema with
  | some why => throw why
  | none =>
      match appendRestoreRowGroups job.columns.length
          (old.rowGroups.map parseRowGroup) with
      | none => throw .restoreRowGroups
      | some restored => return (offset, old, restored)

/-- `carquet_writer_open_append`. A stream it gives up is closed unused. -/
def openAppend (job : WriteJob) : Body Unit := do
  may fun status => .cannotAppend job.path (.other status.text)
  let w ← get
  match w.path.update with
  | none => throw (.cannotAppend job.path (.open job.path))
  | some bytes =>
      match readForAppend fmt job bytes with
      | .error why => throw (.cannotAppend job.path why)
      | .ok (offset, old, restored) =>
          set { w with
            stream := some ⟨offset, []⟩
            writer := some (.appending job offset old restored) }

/-- `fopen` of the output. -/
def openOutput (job : WriteJob) : Body Unit := do
  may fun _ => .cannotCreate job.path none
  let w ← get
  match w.path.create with
  | none => throw (.cannotCreate job.path none)
  | some path =>
      set { w with path := path, stream := some ⟨0, []⟩, file := true }

/-- `carquet_writer_create_file`. -/
def createWriter (job : WriteJob) : Body Unit := do
  may fun status => .cannotCreate job.path (some status.text)
  modify fun w => { w with writer := some (.create job) }

/-- Up to and with the opening of the output. -/
def openPhase (job : WriteJob) : Body Unit := do
  declareSchema job
  if job.append then openAppend fmt job else openOutput job

end Opening

section Configuring

/-- `carquet_writer_set_column_encoding` to a dictionary. -/
def setDictionary (index : Nat) (writer : OutputWriter) :
    Carquet OutputWriter := do
  fault
  return { writer with
    columns := writer.columns.mapIdx fun i column =>
      if i = index then { column with encodingOverride := some .rleDictionary }
      else column }

/-- `carquet_writer_add_metadata`. -/
def addMetadata (key : Bytes) (value : Option Bytes) (writer : OutputWriter) :
    Carquet OutputWriter := do
  fault
  return { writer with keyValues := writer.keyValues ++ [(key, value)] }

/-- `carquet_writer_set_sorting_columns`. -/
def setSortingColumns (order : List SortingColumn) (writer : OutputWriter) :
    Carquet OutputWriter := do
  if writer.columns.length < order.length ∨
      ∃ column ∈ order, writer.columns.length ≤ column.columnIdx then
    throw .invalidArgument
  else
    fault
    return { writer with sortingColumns := order }

variable (t : Translator)

/-- Encodings, metadata and the sort order of the writer. -/
def configure (job : WriteJob) : Body Unit := do
  job.columns.zipIdx.forM fun entry =>
    if entry.1.spec.type.physical = .byteArray then
      useWriter (setDictionary entry.2) (.dictionary entry.2)
    else
      pure ()
  job.metadata.forM fun entry => do
    let key ← orRaise (t.translate entry.1.1 entry.1.2)
    let value ← orRaise (entry.2.mapM fun text => t.translate text.1 text.2)
    useWriter (addMetadata key value) (.addMetadata key)
  match job.sortingColumns with
  | none => pure ()
  | some order => do
      may fun _ => .allocation
      useWriter (setSortingColumns order) .sortOrder

end Configuring

section Loop

/-- The steps of the loop over row groups, columns and chunks. -/
inductive LoopStep where
  | batch (index : Nat) (column : WriteColumn) (slice : Nat × Nat)
  | boundary (group : Nat)

/-- The steps within a row group. -/
def groupSteps (columns : List WriteColumn) (nrow : Nat) (group : Nat × Nat) :
    List LoopStep :=
  columns.zipIdx.flatMap fun entry =>
    (slices (chunkRows nrow) group.1 group.2).map (.batch entry.2 entry.1)

/-- The steps of the row groups from number `n` on. -/
def loopSteps (columns : List WriteColumn) (nrow : Nat) :
    Nat → List (Nat × Nat) → List LoopStep
  | _, [] => []
  | _, [group] => groupSteps columns nrow group
  | n, group :: next :: rest =>
      groupSteps columns nrow group ++
        .boundary n :: loopSteps columns nrow (n + 1) (next :: rest)

variable (fmt : Format) (t : Translator)

/-- A step. A batch is packed into scratch memory, handed over, and followed by a
chance to interrupt. -/
def loopStep : LoopStep → Body Unit
  | .batch index column slice => do
      may fun _ => .allocation
      let batch ← orRaise (packChunk t index column slice)
      useWriter (fun writer => carquetWriteBatch fmt writer (index, batch))
        fun status => .write (.writeBatch index slice.1 status.text)
      may fun _ => .write .interrupted
  | .boundary group =>
      useWriter (carquetNewRowGroup fmt)
        fun status => .write (.newRowGroup group status.text)

/-- The steps of a job. -/
def WriteJob.steps (job : WriteJob) : List LoopStep :=
  loopSteps job.columns job.nrow 0 (rowGroups job.rowGroupRows job.nrow)

def writeLoop (job : WriteJob) : Body Unit :=
  job.steps.forM (loopStep fmt t)

end Loop

section Ending

variable (fmt : Format) (t : Translator)

/-- The writer is given up before it is closed. -/
def closeWriter (job : WriteJob) : Body Unit := fun w =>
  match w.writer with
  | none => .error (.write .undefinedBehaviour) w
  | some writer =>
      EStateM.adaptExcept (fun _ => .write (.finalize job.path))
        (carquetWriterClose fmt job.schema writer) { w with writer := none }

/-- qio closes the stream it has opened. -/
def closeFile (job : WriteJob) : Body Unit := fun w =>
  if w.file then
    let (flushed, w') := { w with file := false }.fclose
    if flushed then .ok () w' else .error (.write (.finalize job.path)) w'
  else
    .ok () w

/-- An append has its writer from the opening. -/
def attachWriter (job : WriteJob) : Body Unit :=
  if job.append then pure () else createWriter job

/-- The body from the open output to the last batch. -/
def afterOpen (job : WriteJob) : Body Unit := do
  attachWriter job
  configure t job
  writeLoop fmt t job

/-- All of the body that comes before the file is closed. -/
def beforeClose (job : WriteJob) : Body Unit := do
  openPhase fmt job
  afterOpen fmt t job

/-- `qio_write_body`. -/
def qioWriteBody (job : WriteJob) : Body Unit := do
  beforeClose fmt t job
  closeWriter fmt job
  closeFile job
  modify fun w => { w with finished := true, schema := false }

/-- A writer that has not been closed is aborted. -/
def releaseWriter (w : World) : World :=
  match w.writer with
  | some writer => { carquetWriterAbort writer w with writer := none }
  | none => w

/-- A stream qio still has is closed. -/
def releaseFile (w : World) : World :=
  if w.file then { w.fclose.2 with file := false } else w

/-- The entry of a write that has not finished is removed. -/
def removeUnfinished (job : WriteJob) (w : World) : World :=
  if ¬ w.finished ∧ ¬ job.append then { w with path := w.path.remove } else w

/-- `qio_write_cleanup`. -/
def qioWriteCleanup (job : WriteJob) (w : World) : World :=
  removeUnfinished job (releaseFile { releaseWriter w with schema := false })

/-- `qio_write_parquet`, from the unwind protection on: the body, then the
cleanup in any case. -/
def qioWriteParquet (job : WriteJob) (w : World) :
    Except BodyError Unit × World :=
  match qioWriteBody fmt t job w with
  | .ok _ w' => (.ok (), qioWriteCleanup job w')
  | .error e w' => (.error e, qioWriteCleanup job w')

end Ending

end Write
end QioParquet
