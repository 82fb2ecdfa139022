import QioParquet.Page.Levels
import QioParquet.Lib.Prefixed
import QioParquet.Lib.Slices
import Mathlib.Tactic

/-!
# The pages of a text column

carquet's column writer, as qio sets it up for a BYTE_ARRAY column. A column starts out with
a dictionary: the rows of a row group are held back, and when the group ends they become a
dictionary page and one data page of indices. If there is nothing to index, if the
dictionary grows over its budget, or if every value is a new one, the group is written as
PLAIN pages instead, and so are all later groups: a column writer is reset between row
groups, but it does not go back to dictionaries. From then on a batch goes to the current
page at once, and the page is closed when it has reached its target size.

The codec, the checksum and the serialization of page headers are parameters.
-/

namespace QioParquet
namespace Page

open Lib Read Encoding

section Pages

/-- The encodings of a page of text. -/
inductive TextEncoding where
  | plain
  | rleDictionary
deriving DecidableEq

/-- Data pages and dictionary pages. -/
inductive PageKind where
  | data
  | dictionary
deriving DecidableEq

/-- The statistics in the header of a data page. -/
structure PageStatistics where
  nullCount : Nat
  maxValue : Bytes
  minValue : Bytes
deriving DecidableEq

/-- `parquet_page_header_t`, as far as the reader takes it from the file. It skips the
statistics. -/
structure PageHeader where
  kind : PageKind
  uncompressedSize : ℤ
  compressedSize : ℤ
  crc : Option Nat
  numValues : ℤ
  encoding : TextEncoding
deriving DecidableEq

/-- Why a header is not parsed: the bytes end within it, or something else. -/
inductive HeaderFault where
  | truncated
  | invalid
deriving DecidableEq

/-- The codec of a column, the checksum, and the serialization of page headers with its
parser, which also says how long the header is. -/
structure PageFormat where
  compress : Bytes → Except Status Bytes
  decompress : Bytes → Nat → Except Status Bytes
  crc32 : Bytes → Nat
  serialize : PageHeader → Option PageStatistics → Bytes
  parse : Bytes → Except HeaderFault (PageHeader × Nat)

/-- A page in the file: what its header is made of, and its payload before and after the
codec. -/
structure StoredPage where
  kind : PageKind
  numValues : Nat
  encoding : TextEncoding
  statistics : Option PageStatistics
  payload : Bytes
  compressed : Bytes
deriving DecidableEq

/-- `(int32_t)` of a size. -/
def asInt32 (size : Nat) : ℤ :=
  (BitVec.ofNat 32 size).toInt

/-- `append_data_page_header`, and the header of a dictionary page. -/
def StoredPage.header (fmt : PageFormat) (page : StoredPage) : PageHeader where
  kind := page.kind
  uncompressedSize := asInt32 page.payload.length
  compressedSize := asInt32 page.compressed.length
  crc := some (fmt.crc32 page.compressed)
  numValues := asInt32 page.numValues
  encoding := page.encoding

def StoredPage.headerBytes (fmt : PageFormat) (page : StoredPage) : Bytes :=
  fmt.serialize (page.header fmt) page.statistics

def StoredPage.bytes (fmt : PageFormat) (page : StoredPage) : Bytes :=
  page.headerBytes fmt ++ page.compressed

end Pages

section PageWriter

/-- A row of text: a string, or nothing. -/
abbrev TextRow := Option Bytes

/-- The definition level of a row. -/
def rowLevel : TextRow → BitVec 16
  | none => 0
  | some _ => 1

/-- A column without nesting. -/
def flatColumn (nullable : Bool) : LevelConfig where
  maxDefLevel := if nullable then 1 else 0
  maxRepLevel := 0
  defRange := by cases nullable <;> decide
  repRange := by decide

/-- The levels that go with some rows. A REQUIRED column has none. -/
def levelCall (nullable : Bool) (rows : List TextRow) : LevelCall (flatColumn nullable) where
  count := rows.length
  defLevels := if nullable then some (rows.map rowLevel) else none
  repLevels := none
  defIn := by
    intro levels hlevels
    split_ifs at hlevels with hnullable
    cases hlevels
    refine ⟨List.length_map _, ?_⟩
    intro level hlevel
    obtain ⟨row, -, rfl⟩ := List.mem_map.mp hlevel
    cases row <;> simp [rowLevel, flatColumn, hnullable]
  repIn := by rintro _ ⟨⟩
  repGiven := by rintro ⟨⟩

/-- `lex_compare(a, b) < 0`. -/
def lexLess : Bytes → Bytes → Bool
  | _, [] => false
  | [], _ :: _ => true
  | a :: as, b :: bs => a < b || (a == b && lexLess as bs)

/-- One value of `update_statistics_byte_array`. -/
def updateMinMax : Option (Bytes × Bytes) → Bytes → Option (Bytes × Bytes)
  | none, value => some (value, value)
  | some (low, high), value =>
      some (if lexLess value low then value else low, if lexLess high value then value else high)

/-- `carquet_page_writer_t` of a text column: its encoding, the buffers of the current page,
its numbers of rows and of nulls, and its smallest and largest value. -/
structure TextPageWriter where
  encoding : TextEncoding
  parts : PageParts
  numValues : Nat
  numNulls : Nat
  minMax : Option (Bytes × Bytes)

namespace TextPageWriter

/-- `carquet_page_writer_reset`. The encoding stays. -/
def reset (w : TextPageWriter) : TextPageWriter :=
  ⟨w.encoding, ⟨[], [], []⟩, 0, 0, none⟩

/-- `carquet_encode_plain_byte_array`. -/
def encodePlainByteArray (values : List Bytes) : Bytes :=
  values.flatMap prefixed

/-- `carquet_page_writer_add_values`, in a PLAIN page. -/
def addValues (nullable : Bool) (rows : List TextRow) (w : TextPageWriter) :
    Except Status TextPageWriter := do
  let parts ← addLevels (levelCall nullable rows) w.parts
  return { w with
    parts := { parts with values := parts.values ++ encodePlainByteArray rows.reduceOption }
    numValues := w.numValues + rows.length
    numNulls := w.numNulls + (rows.length - rows.reduceOption.length)
    minMax := rows.reduceOption.foldl updateMinMax w.minMax }

/-- `carquet_page_writer_add_dictionary_indices`. -/
def addDictionaryIndices (nullable : Bool) (rows : List TextRow) (indices : Bytes)
    (w : TextPageWriter) : Except Status TextPageWriter := do
  let parts ← addLevels (levelCall nullable rows) w.parts
  return { w with
    parts := { parts with values := parts.values ++ indices }
    numValues := rows.length
    numNulls := rows.length - rows.reduceOption.length }

/-- `carquet_page_writer_estimated_size`. -/
def estimatedSize (w : TextPageWriter) : Nat :=
  w.parts.values.length + w.parts.defLevels.length + w.parts.repLevels.length + 64

/-- `carquet_page_writer_finalize_to_buffer`. -/
def finalizeToBuffer (fmt : PageFormat) (w : TextPageWriter) : Except Status StoredPage := do
  let payload := buildPagePayload w.parts
  let compressed ← fmt.compress payload
  return ⟨.data, w.numValues, w.encoding,
    w.minMax.map fun bounds => ⟨w.numNulls, bounds.2, bounds.1⟩, payload, compressed⟩

end TextPageWriter

end PageWriter

section Dictionaries

/-- `dict_builder_t`: the entries, in the order of their indices, what they are written as,
and the indices of the values so far. -/
structure DictBuilder where
  entries : List Bytes
  bytes : Bytes
  indices : List Nat
  abandoned : Bool

/-- `dict_builder_add`. The hash table finds the entry that is equal to the value. -/
def DictBuilder.add (maxDictBytes : Nat) (builder : DictBuilder) (value : Bytes) :
    DictBuilder :=
  match builder.entries.idxOf? value with
  | some index => { builder with indices := builder.indices ++ [index] }
  | none =>
      { entries := builder.entries ++ [value]
        bytes := builder.bytes ++ prefixed value
        indices := builder.indices ++ [builder.entries.length]
        abandoned := maxDictBytes ≠ 0 ∧
          maxDictBytes < (builder.bytes ++ prefixed value).length }

/-- The loop of `carquet_dictionary_encode_capped`. -/
def dictionaryEncode (maxDictBytes : Nat) (values : List Bytes) : DictBuilder :=
  values.foldl (fun builder value =>
    if builder.abandoned then builder else builder.add maxDictBytes value) ⟨[], [], [], false⟩

/-- `bit_width_for_count`. -/
def bitWidthForCount (count : Nat) : Nat :=
  if count = 0 then 0 else max (widthLoop (count - 1)) 1

/-- The indices behind the byte that says how wide they are. -/
def indexPayload (builder : DictBuilder) : Bytes :=
  UInt8.ofNat (bitWidthForCount builder.entries.length) ::
    rleEncodeAll (builder.indices.map (BitVec.ofNat 32))
      (bitWidthForCount builder.entries.length) []

end Dictionaries

section ColumnWriter

/-- The budget of a dictionary, and the size at which a page is closed. -/
def dictionaryPageSize : Nat := 1048576

/-- `target_page_size`. -/
def targetPageSize : Nat := 1048576

/-- The rows of a page when a dictionary is given up. -/
def fallbackRows : Nat := 8192

/-- `carquet_column_writer_internal_t` of a text column: the rows held back for a
dictionary, and the pages of the row group so far. -/
structure ColumnWriter where
  useDictionary : Bool
  page : TextPageWriter
  held : List TextRow
  pages : List StoredPage
  hasDictionaryPage : Bool

/-- A column chunk: its pages in the order of the file, whether the first one is a
dictionary, and its number of rows. -/
structure TextChunk where
  pages : List StoredPage
  hasDictionaryPage : Bool
  numValues : Nat
deriving DecidableEq

namespace ColumnWriter

/-- `carquet_column_writer_create`, with the encoding qio asks for. -/
def create : ColumnWriter :=
  ⟨true, ⟨.rleDictionary, ⟨[], [], []⟩, 0, 0, none⟩, [], [], false⟩

/-- `carquet_column_writer_reset`. Whether there are dictionaries stays. -/
def reset (w : ColumnWriter) : ColumnWriter :=
  ⟨w.useDictionary, w.page.reset, [], [], false⟩

variable (fmt : PageFormat) (nullable : Bool)

/-- `flush_current_page`. -/
def flushCurrentPage (w : ColumnWriter) : Except Status ColumnWriter :=
  if w.page.numValues = 0 then
    .ok w
  else do
    let stored ← w.page.finalizeToBuffer fmt
    return { w with pages := w.pages ++ [stored], page := w.page.reset }

/-- `encode_batch_eager`: a batch of strings is never split. -/
def encodeBatchEager (rows : List TextRow) (w : ColumnWriter) : Except Status ColumnWriter :=
  if rows.length = 0 then
    .ok w
  else do
    let page ← w.page.addValues nullable rows
    let w := { w with page := page }
    if targetPageSize ≤ page.estimatedSize then flushCurrentPage fmt w else return w

/-- `carquet_column_writer_write_batch`. -/
def writeBatch (w : ColumnWriter) (rows : List TextRow) : Except Status ColumnWriter :=
  if w.useDictionary then
    .ok { w with held := w.held ++ rows }
  else
    encodeBatchEager fmt nullable rows w

/-- The loop of `dict_fallback_to_plain`. -/
def replayPlain (held : List TextRow) (w : ColumnWriter) (slice : Nat × Nat) :
    Except Status ColumnWriter := do
  let page ← w.page.addValues nullable ((held.drop slice.1).take slice.2)
  flushCurrentPage fmt { w with page := page }

/-- `dict_fallback_to_plain`. -/
def dictFallbackToPlain (w : ColumnWriter) : Except Status ColumnWriter :=
  (slices fallbackRows 0 w.held.length).foldlM (replayPlain fmt nullable w.held)
    { w with useDictionary := false, page := { w.page with encoding := .plain } }

/-- `carquet_page_writer_emit_dictionary_page`. -/
def emitDictionaryPage (builder : DictBuilder) (numUnique : Nat) (w : ColumnWriter) :
    Except Status ColumnWriter := do
  let compressed ← fmt.compress builder.bytes
  return { w with
    pages := w.pages ++ [⟨.dictionary, numUnique, .plain, none, builder.bytes, compressed⟩]
    hasDictionaryPage := true }

/-- The page of indices. Statistics are left out when the smallest or the largest value is
empty. -/
def emitIndexPage (builder : DictBuilder) (w : ColumnWriter) : Except Status ColumnWriter := do
  let page ← w.page.addDictionaryIndices nullable w.held (indexPayload builder)
  let bounds := (w.held.reduceOption.foldl updateMinMax none).filter fun bounds =>
    bounds.1.length ≠ 0 ∧ bounds.2.length ≠ 0
  flushCurrentPage fmt { w with
    page := { page with encoding := .rleDictionary, minMax := bounds <|> page.minMax } }

/-- `finalize_dictionary`. -/
def finalizeDictionary (w : ColumnWriter) : Except Status ColumnWriter :=
  if w.held.length = 0 then
    .ok w
  else if w.held.reduceOption.length = 0 then
    dictFallbackToPlain fmt nullable w
  else
    let builder := dictionaryEncode dictionaryPageSize w.held.reduceOption
    let numUnique := countEntries builder.bytes.length builder.bytes
    if builder.abandoned then
      dictFallbackToPlain fmt nullable w
    else if w.held.reduceOption.length ≤ numUnique then
      dictFallbackToPlain fmt nullable w
    else do
      let w ← emitDictionaryPage fmt builder numUnique w
      emitIndexPage fmt nullable builder w

/-- `carquet_column_writer_finalize`. -/
def finalize (w : ColumnWriter) : Except Status ColumnWriter :=
  if w.useDictionary then finalizeDictionary fmt nullable w else flushCurrentPage fmt w

/-- The batches of one row group, and the chunk they become. -/
def writeChunk (w : ColumnWriter) (batches : List (List TextRow)) :
    Except Status (TextChunk × ColumnWriter) := do
  let w ← batches.foldlM (writeBatch fmt nullable) w
  let w ← finalize fmt nullable w
  return (⟨w.pages, w.hasDictionaryPage, batches.flatten.length⟩, w.reset)

/-- The row groups one after the other. -/
def writeChunks : ColumnWriter → List (List (List TextRow)) → Except Status (List TextChunk)
  | _, [] => .ok []
  | w, batches :: rest => do
      let (chunk, w) ← writeChunk fmt nullable w batches
      let chunks ← writeChunks w rest
      return chunk :: chunks

end ColumnWriter

end ColumnWriter

end Page
end QioParquet
