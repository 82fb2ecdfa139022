import QioParquet.Page.TextWriter
import QioParquet.Lib.Paging
import QioParquet.Read.ChunkLaws
import Mathlib.Tactic

/-!
# Reading the pages of a text column

carquet's page reader, for a BYTE_ARRAY column of V1 pages. A page is loaded from its place
in the file: the header, which a reader that has not mapped the file takes from a window
that grows; the sizes in the header, which may not pass 256 MiB; the payload, through the
checksum and the codec; the levels and the values. The first load looks for a dictionary
page. A batch is read over the ends of pages, and an error of a page becomes a short batch,
or a failed one if no row was read: `carquet_column_read_batch` drops what the error was.
-/

namespace QioParquet
namespace Page

open Lib Read Encoding

section Headers

/-- How a file is open, and what its pages are read with. -/
structure PageSource where
  format : PageFormat
  mapped : Bool
  verifyChecksums : Bool
  kernels : Kernels
  wide : WideKernels

/-- `CARQUET_MAX_PAGE_PAYLOAD_SIZE`. -/
def maxPagePayloadSize : Nat := 268435456

/-- The loop of `read_and_parse_page_header_fread`: a window that cuts the header off is
made four times as large, up to the size of a page. -/
def readHeaderWindow (fmt : PageFormat) (bytes : Bytes) : Nat → Nat → Option (PageHeader × Nat)
  | 0, _ => none
  | turns + 1, cap =>
      let window := bytes.take cap
      if window.length < 8 then
        none
      else
        match fmt.parse window with
        | .ok found => some found
        | .error fault =>
            if fault ≠ .truncated ∨ window.length < cap ∨ maxPagePayloadSize ≤ cap then
              none
            else
              readHeaderWindow fmt bytes turns (min (cap * 4) maxPagePayloadSize)

/-- The header at the front of the rest of the file, and its size. A mapped file is parsed
as far as it goes. Eleven windows lead from 256 bytes to the largest. -/
def readPageHeader (src : PageSource) (bytes : Bytes) : Option (PageHeader × Nat) :=
  if src.mapped then
    (src.format.parse bytes).toOption
  else
    readHeaderWindow src.format bytes 11 256

/-- `validate_page_payload_size`. -/
def validatePagePayloadSize (header : PageHeader) (allowEmpty : Bool) : Bool :=
  if header.compressedSize < 0 ∨ (allowEmpty = false ∧ header.compressedSize = 0) ∨
      (maxPagePayloadSize : ℤ) < header.compressedSize ∨ header.uncompressedSize < 0 ∨
      (maxPagePayloadSize : ℤ) < header.uncompressedSize then
    false
  else
    match header.kind with
    | .data => decide (0 < header.numValues)
    | .dictionary => decide (0 ≤ header.numValues)

/-- The payload behind a header: `validate_page_payload_span`, the checksum, and the codec. -/
def loadPayload (src : PageSource) (bytes : Bytes) (header : PageHeader) (size : Nat) :
    Option Bytes :=
  let length := header.compressedSize.toNat
  let compressed := (bytes.drop size).take length
  if bytes.length < size + length then
    none
  else if src.verifyChecksums ∧ header.crc.isSome ∧
      header.crc ≠ some (src.format.crc32 compressed) then
    none
  else
    (src.format.decompress compressed header.uncompressedSize.toNat).toOption

end Headers

section Dictionaries

/-- `carquet_read_dictionary_page`, of byte arrays. -/
def readDictionaryPage (numValues : ℤ) (data : Bytes) : Option DictionaryPage :=
  if numValues < 0 then
    none
  else
    (readEntries (2 ^ 32) numValues.toNat 0 data).map fun entries =>
      ⟨data, numValues, some (entries.map Prod.fst)⟩

/-- `load_dictionary_page_mmap` and `load_dictionary_page_fread`: the dictionary, if there is
one, and the rest of the file from the first data page on. A chunk that does not declare a
dictionary may have one all the same. -/
def loadDictionaryPage (src : PageSource) (declared : Bool) (bytes : Bytes) :
    Option (Option DictionaryPage × Bytes) := do
  let (header, size) ← readPageHeader src bytes
  if header.kind ≠ .dictionary then
    if declared then none else some (none, bytes)
  else if validatePagePayloadSize header true = false then
    none
  else do
    let data ← loadPayload src bytes header size
    let dictionary ← readDictionaryPage header.numValues data
    return (some dictionary, bytes.drop (size + header.compressedSize.toNat))

/-- The entry of an index. -/
def dictionaryValue (dictionary : DictionaryPage) (index : Nat) : Option Bytes :=
  if dictionary.count ≤ index then
    none
  else
    (dictionary.offsets.bind (·[index]?)).map (entryBytes dictionary.data)

end Dictionaries

section Values

/-- `carquet_decode_plain`, of byte arrays. -/
def decodePlain (count : Nat) (bytes : Bytes) : Option (List Bytes) :=
  (readEntries (2 ^ 31) count 0 bytes).map (List.map Prod.snd)

/-- `carquet_rle_decode_all` into a buffer: where the stream ends early, the buffer keeps
what it held. -/
def decodeIndexStream (kernels : Kernels) (stale : Nat → Nat) (count : Nat) (bytes : Bytes) :
    Option (List Nat) :=
  match bytes with
  | [] => none
  | width :: rest =>
      let decoded := ((RleDecoder.init rest width.toNat).getBatch kernels count).1
      some (decoded.map BitVec.toNat ++
        (List.range (count - decoded.length)).map fun i => stale (decoded.length + i))

variable (src : PageSource) (stale : Nat → Nat)

/-- The values of a page in preserve mode: indices. A page without is refused. -/
def decodeIndices (dictionary : Option DictionaryPage) (encoding : TextEncoding) (count : Nat)
    (bytes : Bytes) : Option (List Nat) :=
  match encoding, dictionary with
  | .plain, _ => none
  | .rleDictionary, none => none
  | .rleDictionary, some _ => decodeIndexStream src.kernels stale count bytes

/-- The values of a page. -/
def decodeStrings (dictionary : Option DictionaryPage) (encoding : TextEncoding) (count : Nat)
    (bytes : Bytes) : Option (List Bytes) :=
  match encoding, dictionary with
  | .plain, _ => decodePlain count bytes
  | .rleDictionary, none => none
  | .rleDictionary, some dictionary => do
      let indices ← decodeIndexStream src.kernels stale count bytes
      indices.mapM (dictionaryValue dictionary)

end Values

section Loading

variable {β : Type} (src : PageSource) (config : LevelConfig)

/-- Each row with its level, and the next dense value if the row is present. -/
def spreadValues (maxDef : Nat) : List Nat → List β → List (Nat × Option β)
  | [], _ => []
  | level :: levels, values =>
      if level = maxDef then
        (level, values.head?) :: spreadValues maxDef levels values.tail
      else
        (level, none) :: spreadValues maxDef levels values

/-- `load_next_page_mmap` and `load_next_page_fread`: the rows of a data page, and the rest
of the file behind it. -/
def loadDataPage (chunkValues : Nat)
    (decode : TextEncoding → Nat → Bytes → Option (List β)) (bytes : Bytes) :
    Option (List (Nat × Option β) × Bytes) := do
  let (header, size) ← readPageHeader src bytes
  if header.kind ≠ .data ∨ validatePagePayloadSize header false = false then
    none
  else do
    let payload ← loadPayload src bytes header size
    -- a page may not have more values than its chunk
    if (chunkValues : ℤ) < header.numValues then
      none
    else do
      let levels ← (readLevelsV1 src.kernels src.wide config .rle .rle
        header.numValues.toNat payload).toOption
      let defs := levels.defLevels.map BitVec.toNat
      let values ← decode header.encoding (defs.count config.maxDefLevel) levels.values
      return (spreadValues config.maxDefLevel defs values,
        bytes.drop (size + header.compressedSize.toNat))

/-- The data pages of a chunk, until all its values are there or a page does not load. A
page has a value at least. -/
def loadPages (load : Bytes → Option (List (Nat × Option β) × Bytes)) :
    Nat → Nat → Bytes → List (Option (List (Nat × Option β)))
  | 0, _, _ => []
  | turns + 1, remaining, bytes =>
      if remaining = 0 then
        []
      else
        match load bytes with
        | none => [none]
        | some (rows, rest) => some rows :: loadPages load turns (remaining - rows.length) rest

/-- A column chunk: the file from its first page on, and what the footer says of it. -/
structure ChunkSource where
  bytes : Bytes
  declared : Bool
  numValues : Nat

/-- The pages a column reader comes by, decoded one way or the other. -/
def chunkPages (chunk : ChunkSource)
    (decode : Option DictionaryPage → TextEncoding → Nat → Bytes → Option (List β)) :
    List (Option (List (Nat × Option β))) :=
  if chunk.numValues = 0 then
    []
  else
    match loadDictionaryPage src chunk.declared chunk.bytes with
    | none => [none]
    | some (dictionary, rest) =>
        loadPages (loadDataPage src config chunk.numValues (decode dictionary))
          chunk.numValues chunk.numValues rest

end Loading

section Batches

/-- Descriptors of strings that stand one behind the other. -/
def placeStrings : Nat → List Bytes → List ByteArrayRef
  | _, [] => []
  | address, string :: rest =>
      ⟨some address, string.length⟩ :: placeStrings (address + string.length) rest

/-- The levels of a batch; a REQUIRED column is read without. -/
def batchLevels {β : Type} (maxDef : Nat) (rows : List (Nat × Option β)) :
    Option (List Nat) :=
  if maxDef = 0 then none else some (rows.map Prod.fst)

theorem batchLevels_room
    {β : Type} {maxDef : Nat} {rows : List (Nat × Option β)} {levels : List Nat}
    (h : batchLevels maxDef rows = some levels) :
    rows.length ≤ levels.length := by
  unfold batchLevels at h
  split_ifs at h
  cases h
  rw [List.length_map]

/-- A batch of strings. -/
def denseBatch (maxDef : Nat) (rows : List (Nat × Option Bytes)) : DenseBatch where
  count := rows.length
  levels := batchLevels maxDef rows
  values := (placeStrings 0 (rows.map Prod.snd).reduceOption).map .byteArray
  memory := pageMemory (rows.map Prod.snd).reduceOption.flatten
  levels_room _ := batchLevels_room

/-- A batch of indices. -/
def indexBatch (maxDef : Nat) (rows : List (Nat × Option Nat)) : IndexBatch where
  count := rows.length
  levels := batchLevels maxDef rows
  indices := (rows.map Prod.snd).reduceOption
  levels_room _ := batchLevels_room

variable (src : PageSource) (config : LevelConfig) (stale : Nat → Nat) (chunk : ChunkSource)

/-- `carquet_column_reader_t` on a text chunk. -/
def columnReader : ColumnReader where
  readBatch position want :=
    (readRun (chunkPages src config chunk (decodeStrings src stale)) position want).map
      (denseBatch config.maxDefLevel)
  setPreserve := true
  loadPage :=
    match chunkPages src config chunk (decodeIndices src stale) with
    | none :: _ => false
    | _ => true
  dictionary := (loadDictionaryPage src chunk.declared chunk.bytes).bind Prod.fst
  readIndices position want :=
    (readRun (chunkPages src config chunk (decodeIndices src stale)) position want).map
      (indexBatch config.maxDefLevel)

end Batches

end Page
end QioParquet
