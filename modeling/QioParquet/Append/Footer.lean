import QioParquet.Plan.ReadPlan
import Mathlib.Tactic

/-!
# The footer of an append

An append parses the footer of the file, copies each row group into the records
the writer keeps for its own, and builds a new footer from these records and the
options of the call. The writer's records are narrower than the footer's: three
encodings, no distinct count, bounds only as a pair of non-empty values.

The records here are those of the footer as it stands in the file; a field that
may be missing is an `Option`, and an empty value is not a missing one.
-/

namespace QioParquet
namespace Footer

open Read Plan

section Footers

/-- `carquet_encoding_t`. A code outside the list is kept as it is. -/
inductive PageEncoding where
  | plain
  | plainDictionary
  | rle
  | bitPacked
  | deltaBinaryPacked
  | deltaLengthByteArray
  | deltaByteArray
  | rleDictionary
  | byteStreamSplit
  | other (code : ℤ)
deriving DecidableEq

/-- `carquet_compression_t`, by its code. -/
abbrev Codec := ℤ

/-- `parquet_statistics_t`. -/
structure Statistics where
  maxDeprecated : Option Bytes
  minDeprecated : Option Bytes
  nullCount : Option ℤ
  distinctCount : Option ℤ
  maxValue : Option Bytes
  minValue : Option Bytes
  isMaxValueExact : Option Bool
  isMinValueExact : Option Bool
deriving DecidableEq

/-- `parquet_column_chunk_t` with its `parquet_column_metadata_t`. -/
structure ColumnChunk where
  fileOffset : ℤ
  type : PhysicalType
  encodings : List PageEncoding
  codec : Codec
  numValues : ℤ
  totalUncompressedSize : ℤ
  totalCompressedSize : ℤ
  dataPageOffset : ℤ
  dictionaryPageOffset : Option ℤ
  statistics : Option Statistics
  bloomFilterOffset : Option ℤ
  bloomFilterLength : Option ℤ
  offsetIndexOffset : Option ℤ
  offsetIndexLength : Option ℤ
  columnIndexOffset : Option ℤ
  columnIndexLength : Option ℤ
deriving DecidableEq

/-- `parquet_sorting_column_t`. -/
structure SortingColumn where
  columnIdx : Nat
  descending : Bool
  nullsFirst : Bool
deriving DecidableEq

/-- `parquet_row_group_t`. -/
structure RowGroupEntry where
  columns : List ColumnChunk
  totalByteSize : ℤ
  numRows : ℤ
  sortingColumns : List SortingColumn
  fileOffset : Option ℤ
  totalCompressedSize : Option ℤ
  ordinal : Option ℤ
deriving DecidableEq

/-- `arena_bindup_thrift`: an empty value is read as none. -/
def arenaBindup (value : Option Bytes) : Option Bytes :=
  value.filter fun bytes => bytes != []

/-- `parse_statistics`. -/
def parseStatistics (s : Statistics) : Statistics :=
  { s with
    maxDeprecated := arenaBindup s.maxDeprecated
    minDeprecated := arenaBindup s.minDeprecated
    maxValue := arenaBindup s.maxValue
    minValue := arenaBindup s.minValue }

/-- `parse_column_chunk`. -/
def parseColumnChunk (chunk : ColumnChunk) : ColumnChunk :=
  { chunk with statistics := chunk.statistics.map parseStatistics }

/-- `parse_row_group`. -/
def parseRowGroup (group : RowGroupEntry) : RowGroupEntry :=
  { group with columns := group.columns.map parseColumnChunk }

end Footers

section Restore

/-- `row_group_column_info_t`: what the writer keeps of a column chunk. -/
structure ColumnInfo where
  fileOffset : ℤ
  type : PhysicalType
  codec : Codec
  numValues : ℤ
  totalCompressedSize : ℤ
  totalUncompressedSize : ℤ
  dataPageOffset : ℤ
  dictionaryPageOffset : Option ℤ
  encodings : List PageEncoding
  bloomFilterOffset : Option ℤ
  bloomFilterLength : Option ℤ
  columnIndexOffset : Option ℤ
  columnIndexLength : Option ℤ
  offsetIndexOffset : Option ℤ
  offsetIndexLength : Option ℤ
  hasStatistics : Bool
  nullCount : Option ℤ
  minMax : Option (Bytes × Bytes)
  encodings_room : encodings.length ≤ 3
deriving DecidableEq

/-- `row_group_info_t`. -/
structure RowGroupInfo where
  fileOffset : ℤ
  numRows : ℤ
  totalByteSize : ℤ
  totalCompressedSize : ℤ
  ordinal : ℤ
  columns : List ColumnInfo
deriving DecidableEq

/-- The bounds that are restored: both of them, and neither empty. -/
def restoredMinMax (s : Statistics) : Option (Bytes × Bytes) :=
  match s.minValue, s.maxValue with
  | some low, some high =>
      if 0 < low.length ∧ 0 < high.length then some (low, high) else none
  | _, _ => none

/-- `append_restore_column_chunk`. -/
def appendRestoreColumnChunk (src : ColumnChunk) : ColumnInfo where
  fileOffset := src.fileOffset
  type := src.type
  codec := src.codec
  numValues := src.numValues
  totalCompressedSize := src.totalCompressedSize
  totalUncompressedSize := src.totalUncompressedSize
  dataPageOffset := src.dataPageOffset
  dictionaryPageOffset := src.dictionaryPageOffset
  encodings := src.encodings.take 3
  bloomFilterOffset := src.bloomFilterOffset
  bloomFilterLength := src.bloomFilterLength
  columnIndexOffset := src.columnIndexOffset
  columnIndexLength := src.columnIndexLength
  offsetIndexOffset := src.offsetIndexOffset
  offsetIndexLength := src.offsetIndexLength
  hasStatistics := src.statistics.isSome
  nullCount := src.statistics.bind Statistics.nullCount
  minMax := src.statistics.bind restoredMinMax
  encodings_room := List.length_take_le 3 src.encodings

/-- One round of `append_restore_row_groups`, for the row group of index `i`. The
index is cast to `int16_t` where the footer has no ordinal. -/
def appendRestoreRowGroup (src : RowGroupEntry) (i : Nat) : RowGroupInfo where
  fileOffset := src.fileOffset.getD 0
  numRows := src.numRows
  totalByteSize := src.totalByteSize
  totalCompressedSize := src.totalCompressedSize.getD 0
  ordinal := src.ordinal.getD (BitVec.ofNat 16 i).toInt
  columns := src.columns.map appendRestoreColumnChunk

/-- `append_restore_row_groups`. A row group with another number of columns than
the writer is refused. -/
def appendRestoreRowGroups (numColumns : Nat) (groups : List RowGroupEntry) :
    Option (List RowGroupInfo) :=
  if ∀ group ∈ groups, group.columns.length = numColumns then
    some (groups.zipIdx.map fun entry => appendRestoreRowGroup entry.1 entry.2)
  else
    none

end Restore

section Build

/-- The column of the writer: its type, its annotation, and the encoding set for
it by the call. -/
structure ColumnDef where
  type : PhysicalType
  logical : Option Logical
  encodingOverride : Option PageEncoding
deriving DecidableEq

/-- `effective_column_encoding`. -/
def effectiveColumnEncoding (compressed : Bool) (column : ColumnDef) :
    PageEncoding :=
  match column.encodingOverride with
  | some encoding => encoding
  | none =>
      if compressed && (column.type == .float || column.type == .double) then
        .byteStreamSplit
      else
        .plain

/-- The encodings of `refresh_column_encodings_cache`. Before the first batch of
the call the cache is empty, and `build_file_metadata` takes two zero codes. -/
def cachedEncodings (started compressed : Bool) (column : ColumnDef) :
    List PageEncoding :=
  if started then
    match effectiveColumnEncoding compressed column with
    | .rleDictionary | .plainDictionary => [.plain, .rleDictionary, .rle]
    | encoding => [encoding, .rle]
  else
    [.plain, .plain]

/-- `deprecated_stats_are_compatible`. Every column qio writes has a defined
order. -/
def deprecatedStatsAreCompatible (column : ColumnDef) : Bool :=
  match column.logical with
  | some (.integer _ false) => false
  | _ => true

/-- `max_statistics_size`. -/
def maxStatisticsSize : Nat := 32

/-- The last byte is raised by one; a byte that wraps is dropped and the one
before it raised. The bytes are in reverse order. -/
def raiseLast : List UInt8 → List UInt8
  | [] => []
  | byte :: rest =>
      if byte + 1 = 0 then raiseLast rest else (byte + 1) :: rest

/-- An upper bound cut to the size limit and raised, if that is possible. -/
def truncatedMax (high : Bytes) : Option Bytes :=
  match raiseLast (high.take maxStatisticsSize).reverse with
  | [] => none
  | byte :: rest => some (byte :: rest).reverse

/-- The bounds part of `build_file_metadata`. -/
def buildBounds (column : ColumnDef) (type : PhysicalType) (nullCount : Option ℤ)
    (low high : Bytes) : Statistics :=
  let cutLow := type = .byteArray ∧ maxStatisticsSize < low.length
  let cutHigh := type = .byteArray ∧ maxStatisticsSize < high.length
  let minValue := if cutLow then low.take maxStatisticsSize else low
  let maxValue := if cutHigh then truncatedMax high else some high
  let mirrored := deprecatedStatsAreCompatible column
  { maxDeprecated := if mirrored ∧ ¬ cutHigh then maxValue else none
    minDeprecated := if mirrored ∧ ¬ cutLow then some minValue else none
    nullCount := nullCount
    distinctCount := none
    maxValue := maxValue
    minValue := some minValue
    isMaxValueExact := maxValue.map fun _ => !decide cutHigh
    isMinValueExact := some (!decide cutLow) }

/-- The statistics part of `build_file_metadata`. -/
def buildStatistics (column : ColumnDef) (src : ColumnInfo) :
    Option Statistics :=
  if src.hasStatistics then
    match src.minMax with
    | some (low, high) =>
        if 0 < low.length ∧ 0 < high.length then
          some (buildBounds column src.type src.nullCount low high)
        else
          some ⟨none, none, src.nullCount, none, none, none, none, none⟩
    | none => some ⟨none, none, src.nullCount, none, none, none, none, none⟩
  else
    none

/-- What the rebuilding takes from the call. -/
structure FooterOptions where
  columns : List ColumnDef
  started : Bool
  compressed : Bool
  sortingColumns : List SortingColumn

/-- A column chunk of `build_file_metadata`. -/
def buildColumnChunk (started compressed : Bool) (column : ColumnDef)
    (src : ColumnInfo) : ColumnChunk where
  fileOffset := src.fileOffset
  type := src.type
  encodings :=
    if 0 < src.encodings.length then src.encodings
    else cachedEncodings started compressed column
  codec := src.codec
  numValues := src.numValues
  totalUncompressedSize := src.totalUncompressedSize
  totalCompressedSize := src.totalCompressedSize
  dataPageOffset := src.dataPageOffset
  dictionaryPageOffset := src.dictionaryPageOffset
  statistics := buildStatistics column src
  bloomFilterOffset := src.bloomFilterOffset
  bloomFilterLength := src.bloomFilterLength
  offsetIndexOffset := src.offsetIndexOffset
  offsetIndexLength := src.offsetIndexLength
  columnIndexOffset := src.columnIndexOffset
  columnIndexLength := src.columnIndexLength

/-- A row group of `build_file_metadata`. -/
def buildRowGroup (options : FooterOptions) (src : RowGroupInfo) :
    RowGroupEntry where
  columns := List.zipWith (buildColumnChunk options.started options.compressed)
    options.columns src.columns
  totalByteSize := src.totalByteSize
  numRows := src.numRows
  sortingColumns := options.sortingColumns
  fileOffset := some src.fileOffset
  totalCompressedSize := some src.totalCompressedSize
  ordinal := some src.ordinal

/-- The row groups of `build_file_metadata`. -/
def buildRowGroups (options : FooterOptions) (groups : List RowGroupInfo) :
    List RowGroupEntry :=
  groups.map (buildRowGroup options)

end Build

end Footer
end QioParquet
