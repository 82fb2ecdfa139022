import QioParquet.Inspect.PageIndex
import Mathlib.Tactic

/-!
# Inspecting a file with any bounds

`column_statistics()` reports the bounds of every column chunk, `page_index()` those
of the pages. Both decode each bound by itself and end with the first error of one.
-/

namespace QioParquet
namespace Inspect

open Lib Read Plan Footer

section Statistics

/-- What a row group has of a column chunk: `none` where it has no metadata, and the
number of values with the statistics, if any, where it has. -/
abbrev ChunkEntry := Option (ℤ × Option Statistics)

/-- `carquet_column_statistics_t`. -/
structure ColumnStatistics where
  numValues : ℤ
  nullCount : Option ℤ
  distinctCount : Option ℤ
  minMax : Option (Bytes × Bytes)

/-- Two bounds, if both are there and neither is empty. -/
def bothBounds (low high : Option Bytes) : Option (Bytes × Bytes) :=
  match low, high with
  | some low, some high =>
      if 0 < low.length ∧ 0 < high.length then some (low, high) else none
  | _, _ => none

/-- `carquet_reader_column_statistics`. A chunk that the row group does not have is
not found. The older bounds count where the newer ones are not both there. -/
def readerColumnStatistics : Option ChunkEntry → Option ColumnStatistics
  | none => none
  | some none => some ⟨0, none, none, none⟩
  | some (some (numValues, none)) => some ⟨numValues, none, none, none⟩
  | some (some (numValues, some s)) =>
      some ⟨numValues, s.nullCount, s.distinctCount,
        (bothBounds s.minValue s.maxValue).orElse fun _ =>
          bothBounds s.minDeprecated s.maxDeprecated⟩

/-- What inspecting a file reads of its footer: the leaves, the number of row
groups, and the column chunks. -/
structure DescribedFile where
  leaves : List SchemaLeaf
  numRowGroups : Nat
  chunks : Nat → Nat → Option ChunkEntry

/-- A row of the result. -/
structure StatisticsRow where
  rowGroup : Nat
  column : Nat
  path : String
  numValues : RDouble
  nullCount : RDouble
  distinctCount : RDouble
  min : Option RCell
  max : Option RCell

variable (file : DescribedFile)

def DescribedFile.leaf (column : Nat) : SchemaLeaf :=
  file.leaves.getD column noLeaf

def DescribedFile.statistics (place : Nat × Nat) : Option ColumnStatistics :=
  readerColumnStatistics (file.chunks place.1 place.2)

def DescribedFile.minMax (place : Nat × Nat) : Option (Bytes × Bytes) :=
  (file.statistics place).bind ColumnStatistics.minMax

/-- The row of a column chunk. -/
def DescribedFile.statisticsRow (place : Nat × Nat) :
    Except InspectError StatisticsRow := do
  let leaf := file.leaf place.2
  let stats := file.statistics place
  let low ← statisticValue leaf ((file.minMax place).map Prod.fst)
  let high ← statisticValue leaf ((file.minMax place).map Prod.snd)
  return {
    rowGroup := place.1 + 1
    column := place.2 + 1
    path := leaf.leaf.dottedPath
    numValues := orNA (stats.map ColumnStatistics.numValues)
    nullCount := orNA (stats.bind ColumnStatistics.nullCount)
    distinctCount := orNA (stats.bind ColumnStatistics.distinctCount)
    min := low
    max := high }

/-- The column chunks of the file. -/
def DescribedFile.places : List (Nat × Nat) :=
  (List.range file.numRowGroups).flatMap fun group =>
    (List.range file.leaves.length).map fun column => (group, column)

/-- `qio_parquet_column_statistics`. -/
def DescribedFile.columnStatistics : Except InspectError (List StatisticsRow) :=
  file.places.mapM file.statisticsRow

end Statistics

section Raising

/-- Two bounds decoded one after the other. -/
theorem bounds_error_iff
    {β : Type} {leaf : SchemaLeaf} {low high : Option Bytes}
    (hlow : ∀ bytes, low = some bytes → bytes.length < 2 ^ 31)
    (hhigh : ∀ bytes, high = some bytes → bytes.length < 2 ^ 31)
    (make : Option RCell → Option RCell → β) :
    (∃ e, (do
        let low ← statisticValue leaf low
        let high ← statisticValue leaf high
        return make low high : Except InspectError β) = .error e) ↔
      ∃ bytes, (low = some bytes ∨ high = some bytes) ∧ BreaksText leaf bytes := by
  have hlow := @statisticValue_error_iff leaf low hlow
  have hhigh := @statisticValue_error_iff leaf high hhigh
  have hsplit : (∃ bytes, (low = some bytes ∨ high = some bytes) ∧
      BreaksText leaf bytes) ↔
      (∃ bytes, low = some bytes ∧ BreaksText leaf bytes) ∨
        ∃ bytes, high = some bytes ∧ BreaksText leaf bytes := by
    simp only [or_and_right, exists_or]
  rw [hsplit, ← hlow, ← hhigh]
  cases statisticValue leaf low with
  | error e =>
      simp [error_bind]
  | ok low' =>
      cases statisticValue leaf high with
      | error e =>
          simp [ok_bind, error_bind]
      | ok high' =>
          simp [ok_bind, pure_eq_ok]

end Raising

section Result

/-- The bounds of a column chunk. -/
def DescribedFile.Bound (file : DescribedFile) (place : Nat × Nat) (bytes : Bytes) :
    Prop :=
  (file.minMax place).map Prod.fst = some bytes ∨
    (file.minMax place).map Prod.snd = some bytes

/-- The bounds of a page. -/
def IndexedFile.Bound (file : IndexedFile) (place : PagePlace) (bytes : Bytes) :
    Prop :=
  (file.pageStats place).bind PageStats.minValue = some bytes ∨
    (file.pageStats place).bind PageStats.maxValue = some bytes

/-- The sizes of bounds are what an `int32_t` holds: `thrift_read_binary` refuses a
longer one. -/
def DescribedFile.Sized (file : DescribedFile) : Prop :=
  ∀ place bytes, file.Bound place bytes → bytes.length < 2 ^ 31

def IndexedFile.Sized (file : IndexedFile) : Prop :=
  ∀ place bytes, file.Bound place bytes → bytes.length < 2 ^ 31

/-- `column_statistics()` returns a frame with each bound decoded or `NULL`. -/
def DescribedFile.Inspectable (file : DescribedFile) : Prop :=
  ∃ rows, file.columnStatistics = .ok rows ∧
    List.Forall₂ (fun place row =>
      ReportsBound (file.leaf place.2) ((file.minMax place).map Prod.fst) row.min ∧
      ReportsBound (file.leaf place.2) ((file.minMax place).map Prod.snd) row.max)
      file.places rows

/-- `page_index()` returns a frame with each bound decoded or `NULL`. -/
def IndexedFile.Inspectable (file : IndexedFile) : Prop :=
  ∃ rows, file.pageIndex = .ok rows ∧
    List.Forall₂ (fun place row =>
      ReportsBound (file.leaf place.2.1)
        ((file.pageStats place).bind PageStats.minValue) row.min ∧
      ReportsBound (file.leaf place.2.1)
        ((file.pageStats place).bind PageStats.maxValue) row.max)
      (file.places.take file.countPages) rows

theorem describedFile_inspectable_iff
    (file : DescribedFile)
    (hsized : file.Sized) :
    file.Inspectable ↔ ∀ place ∈ file.places, ∀ bytes, file.Bound place bytes →
      ¬ BreaksText (file.leaf place.2) bytes := by
  have hreturns : file.Inspectable ↔ ∃ rows, file.columnStatistics = .ok rows := by
    constructor
    · rintro ⟨rows, hrows, -⟩
      exact ⟨rows, hrows⟩
    rintro ⟨rows, hrows⟩
    refine ⟨rows, hrows, ?_⟩
    refine (forall₂_of_mapM_ok hrows).imp fun place row hrow => ?_
    simp only [DescribedFile.statisticsRow, bind_eq_ok_iff, pure_eq_ok,
      Except.ok.injEq] at hrow
    obtain ⟨low, hlow, high, hhigh, rfl⟩ := hrow
    exact ⟨reportsBound_of_ok (fun bytes h => hsized place bytes (.inl h)) hlow,
      reportsBound_of_ok (fun bytes h => hsized place bytes (.inr h)) hhigh⟩
  rw [hreturns, DescribedFile.columnStatistics, exists_mapM_ok_iff]
  refine forall₂_congr fun place _ => ?_
  rw [DescribedFile.statisticsRow, bounds_error_iff
    (fun bytes h => hsized place bytes (.inl h))
    (fun bytes h => hsized place bytes (.inr h))]
  simp only [not_exists, not_and]
  rfl

theorem indexedFile_inspectable_iff
    (file : IndexedFile)
    (hsized : file.Sized) :
    file.Inspectable ↔ ∀ place ∈ file.places.take file.countPages, ∀ bytes,
      file.Bound place bytes → ¬ BreaksText (file.leaf place.2.1) bytes := by
  have hpages : ∀ rows, file.pageIndex = .ok rows ↔
      (file.places.take file.countPages).mapM file.pageRow = .ok rows := by
    intro rows
    rw [IndexedFile.pageIndex, fillPages_eq]
    exact emitInto_nil_eq_ok
  have hreturns : file.Inspectable ↔ ∃ rows, file.pageIndex = .ok rows := by
    constructor
    · rintro ⟨rows, hrows, -⟩
      exact ⟨rows, hrows⟩
    rintro ⟨rows, hrows⟩
    refine ⟨rows, hrows, ?_⟩
    refine (forall₂_of_mapM_ok ((hpages rows).mp hrows)).imp fun place row hrow => ?_
    simp only [IndexedFile.pageRow, bind_eq_ok_iff, pure_eq_ok,
      Except.ok.injEq] at hrow
    obtain ⟨low, hlow, high, hhigh, rfl⟩ := hrow
    exact ⟨reportsBound_of_ok (fun bytes h => hsized place bytes (.inl h)) hlow,
      reportsBound_of_ok (fun bytes h => hsized place bytes (.inr h)) hhigh⟩
  simp only [hreturns, hpages]
  rw [exists_mapM_ok_iff]
  refine forall₂_congr fun place _ => ?_
  rw [IndexedFile.pageRow, bounds_error_iff
    (fun bytes h => hsized place bytes (.inl h))
    (fun bytes h => hsized place bytes (.inr h))]
  simp only [not_exists, not_and]
  rfl

/-- Both functions return, with every bound decoded or `NULL`, exactly when no text
bound they come to is UTF-8 with a zero byte in it, and the scan of every text bound
stays within the range of its index. -/
theorem inspection_never_breaks_iff
    (described : DescribedFile) (indexed : IndexedFile)
    (hdescribed : described.Sized) (hindexed : indexed.Sized) :
    (described.Inspectable ∧ indexed.Inspectable) ↔
      (∀ place ∈ described.places, ∀ bytes, described.Bound place bytes →
        ¬ BreaksText (described.leaf place.2) bytes) ∧
      (∀ place ∈ indexed.places.take indexed.countPages, ∀ bytes,
        indexed.Bound place bytes → ¬ BreaksText (indexed.leaf place.2.1) bytes) := by
  rw [describedFile_inspectable_iff described hdescribed,
    indexedFile_inspectable_iff indexed hindexed]

/-- A text column and an INT32 column. -/
def mixedLeaves : List SchemaLeaf :=
  [⟨["s"], .byteArray, some .string, 0, 0, 0, .required⟩,
    ⟨["n"], .int32, none, 0, 0, 0, .required⟩]

/-- The bounds of a column of `mixedLeaves`: text and text that is not UTF-8, the
smallest integer and a number of three bytes. -/
def mixedBounds (column : Nat) : Bytes × Bytes :=
  if column = 0 then ([0x61, 0xC3, 0xA9], [0x62, 0xFF])
  else ([0, 0, 0, 0x80], [1, 2, 3])

/-- Two row groups with both columns, with bounds in the footer and of two pages
each, the second of nulls only. -/
def mixedFile : DescribedFile where
  leaves := mixedLeaves
  numRowGroups := 2
  chunks _ column := some (some (5, some ⟨none, none, some 1, none,
    some (mixedBounds column).2, some (mixedBounds column).1, none, none⟩))

def mixedIndex : IndexedFile where
  leaves := mixedLeaves
  numRowGroups := 2
  indexes _ column :=
    { columnIndex := some ⟨some [false, true], some [(mixedBounds column).1, []],
        some [(mixedBounds column).2, []], some [0, 1]⟩
      offsetIndex := some [⟨4, 20, 0⟩, ⟨24, 8, 4⟩] }

theorem mixedBounds_short
    (column : Nat) :
    ∀ bytes ∈ [(mixedBounds column).1, (mixedBounds column).2],
      bytes.length ≤ 2 ^ 31 - 3 ∧ (column = 0 → (0 : UInt8) ∉ bytes) := by
  rw [mixedBounds]
  split_ifs with hcolumn
  · simp
  · simp [hcolumn]

theorem mixedLeaves_text
    {column : Nat}
    (hcolumn : column < 2)
    (h : (mixedLeaves.getD column noLeaf).physicalType = .byteArray) :
    column = 0 := by
  interval_cases column
  · rfl
  · cases h

theorem mixedFile_bound
    {place : Nat × Nat} {bytes : Bytes}
    (h : mixedFile.Bound place bytes) :
    bytes ∈ [(mixedBounds place.2).1, (mixedBounds place.2).2] := by
  have hpositive : ∀ bytes ∈ [(mixedBounds place.2).1, (mixedBounds place.2).2],
      0 < bytes.length := by
    rw [mixedBounds]
    split_ifs <;> simp
  have hbounds : mixedFile.minMax place = some (mixedBounds place.2) := by
    simp only [List.mem_cons, List.not_mem_nil, or_false, forall_eq_or_imp,
      forall_eq] at hpositive
    simp [DescribedFile.minMax, DescribedFile.statistics, mixedFile,
      readerColumnStatistics, bothBounds, hpositive]
  simpa [DescribedFile.Bound, hbounds, eq_comm] using h

theorem mixedIndex_bound
    {place : PagePlace} {bytes : Bytes}
    (h : mixedIndex.Bound place bytes) :
    bytes ∈ [(mixedBounds place.2.1).1, (mixedBounds place.2.1).2] := by
  have hpages : ∀ bound : Bytes,
      pageBound (some [bound, []]) place.2.2 = some bytes → bytes = bound := by
    intro bound hbound
    rw [pageBound, Option.filter_eq_some_iff] at hbound
    obtain ⟨hbytes, hne⟩ := hbound
    rcases hpage : place.2.2 with _ | _ | page
    · simpa [hpage, eq_comm] using hbytes
    · rw [hpage] at hbytes
      cases hbytes
      cases hne
    · simp [hpage] at hbytes
  simp only [IndexedFile.Bound, IndexedFile.pageStats, mixedIndex, Option.bind_some,
    ColumnIndex.pageStats] at h
  split_ifs at h with hpage
  · simp only [Option.bind_some] at h
    rcases h with h | h
    · simp [hpages _ h]
    · simp [hpages _ h]
  · simp at h

theorem inspection_never_breaks_iff_mixed :
    mixedFile.Inspectable ∧ mixedIndex.Inspectable := by
  have hsized : mixedFile.Sized := by
    intro place bytes hbound
    have := (mixedBounds_short _ bytes (mixedFile_bound hbound)).1
    omega
  have hindexed : mixedIndex.Sized := by
    intro place bytes hbound
    have := (mixedBounds_short _ bytes (mixedIndex_bound hbound)).1
    omega
  refine (inspection_never_breaks_iff mixedFile mixedIndex hsized hindexed).mpr ⟨?_, ?_⟩
  · intro place hplace bytes hbound
    obtain ⟨hshort, hnul⟩ := mixedBounds_short _ bytes (mixedFile_bound hbound)
    refine not_breaksText_of_short hshort fun htype => hnul (mixedLeaves_text ?_ htype)
    simp only [DescribedFile.places, List.mem_flatMap, List.mem_map, List.mem_range] at hplace
    obtain ⟨group, -, column, hcolumn, rfl⟩ := hplace
    exact hcolumn
  · intro place hplace bytes hbound
    obtain ⟨hshort, hnul⟩ := mixedBounds_short _ bytes (mixedIndex_bound hbound)
    refine not_breaksText_of_short hshort fun htype => hnul (mixedLeaves_text ?_ htype)
    have hplace := List.mem_of_mem_take hplace
    simp only [IndexedFile.places, List.mem_flatMap, List.mem_map, List.mem_range] at hplace
    obtain ⟨group, -, column, hcolumn, page, -, rfl⟩ := hplace
    exact hcolumn

/-- A text column whose smallest value is a single zero byte. -/
def nulFile : DescribedFile where
  leaves := [⟨["x"], .byteArray, some .string, 0, 0, 0, .required⟩]
  numRowGroups := 1
  chunks _ _ := some (some (1, some
    ⟨none, none, some 0, none, some [0x61], some [0], none, none⟩))

theorem nul_bound_raises :
    nulFile.columnStatistics = .error (.embeddedNul [0]) ∧
      ¬ nulFile.Inspectable := by
  refine ⟨rfl, ?_⟩
  rintro ⟨rows, hrows, -⟩
  cases hrows

end Result

end Inspect
end QioParquet
