import QioParquet.Inspect.Bounds
import QioParquet.Lib.BoundedFill
import Mathlib.Tactic

/-!
# The page index

A column index holds the bounds of the pages of a chunk, an offset index where they
are. `qio_parquet_page_index` counts the pages in a first pass and fills the result
in a second one, which stops when the result is full. The first pass takes the pages
of the column index and looks at the offset index only where there are none; the
second takes the larger number of pages.
-/

namespace QioParquet
namespace Inspect

open Lib Read Plan

section Indexes

/-- `carquet_column_index_t`: lists that can be absent and of different lengths. -/
structure ColumnIndex where
  nullPages : Option (List Bool)
  minValues : Option (List Bytes)
  maxValues : Option (List Bytes)
  nullCounts : Option (List ℤ)

/-- The length of a list, where it is there, is a limit. -/
def clampTo {α : Type} (pages : Nat) : Option (List α) → Nat
  | none => pages
  | some values => min pages values.length

/-- `carquet_column_index_num_pages`: the pages of `null_pages` that all other
lists have. -/
def ColumnIndex.numPages (index : ColumnIndex) : Nat :=
  let pages := (index.nullPages.map List.length).getD 0
  clampTo (clampTo (clampTo pages index.minValues) index.maxValues) index.nullCounts

/-- `carquet_page_stats_t`. -/
structure PageStats where
  nullCount : ℤ
  minValue : Option Bytes
  maxValue : Option Bytes
  isNullPage : Bool

/-- A bound of a page. Nothing is kept of an empty one. -/
def pageBound (values : Option (List Bytes)) (page : Nat) : Option Bytes :=
  (values.bind fun bounds => bounds[page]?).filter fun bytes => bytes != []

/-- `carquet_column_index_get_page_stats`. -/
def ColumnIndex.pageStats (index : ColumnIndex) (page : Nat) : Option PageStats :=
  if page < index.numPages then
    some {
      nullCount := (index.nullCounts.bind fun counts => counts[page]?).getD 0
      minValue := pageBound index.minValues page
      maxValue := pageBound index.maxValues page
      isNullPage := (index.nullPages.bind fun flags => flags[page]?).getD false }
  else
    none

/-- `carquet_page_location_t`. -/
structure PageLocation where
  offset : ℤ
  compressedSize : ℤ
  firstRowIndex : ℤ

/-- What there is of a chunk's page index. -/
structure ChunkIndexes where
  columnIndex : Option ColumnIndex
  offsetIndex : Option (List PageLocation)

/-- What inspecting a file reads: the leaves, the number of row groups, and by row
group and column the page indexes. -/
structure IndexedFile where
  leaves : List SchemaLeaf
  numRowGroups : Nat
  indexes : Nat → Nat → ChunkIndexes

end Indexes

section Passes

variable (file : IndexedFile)

/-- Pages of the column index of a chunk. -/
def IndexedFile.statsPages (group column : Nat) : Nat :=
  match (file.indexes group column).columnIndex with
  | some stats => stats.numPages
  | none => 0

/-- Pages of the offset index of a chunk. -/
def IndexedFile.locatedPages (group column : Nat) : Nat :=
  match (file.indexes group column).offsetIndex with
  | some locations => locations.length
  | none => 0

/-- One turn of the counting pass. -/
def IndexedFile.countedPages (group column : Nat) : Nat :=
  let pages := file.statsPages group column
  if pages = 0 then file.locatedPages group column else pages

/-- The counting pass. -/
def IndexedFile.countPages : Nat :=
  ((List.range file.numRowGroups).map fun group =>
    ((List.range file.leaves.length).map fun column =>
      file.countedPages group column).sum).sum

/-- The pages of a chunk in the filling pass. -/
def IndexedFile.filledPages (group column : Nat) : Nat :=
  max (file.statsPages group column) (file.locatedPages group column)

/-- A row of the result. -/
structure PageIndexRow where
  rowGroup : Nat
  column : Nat
  path : String
  page : Nat
  firstRow : RDouble
  offset : RDouble
  compressedBytes : RDouble
  nullCount : RDouble
  nullPage : Option Bool
  min : Option RCell
  max : Option RCell

/-- A place in the file: row group, column and page, from zero. -/
abbrev PagePlace := Nat × Nat × Nat

def PageIndexRow.place (row : PageIndexRow) : PagePlace :=
  (row.rowGroup - 1, row.column - 1, row.page - 1)

/-- A leaf that is not there; the loops stay within the leaves. -/
def noLeaf : SchemaLeaf :=
  ⟨[], .byteArray, none, 0, 0, 0, .required⟩

def IndexedFile.leaf (column : Nat) : SchemaLeaf :=
  file.leaves.getD column noLeaf

def IndexedFile.pageStats (place : PagePlace) : Option PageStats :=
  (file.indexes place.1 place.2.1).columnIndex.bind fun stats =>
    stats.pageStats place.2.2

def IndexedFile.pageLocation (place : PagePlace) : Option PageLocation :=
  (file.indexes place.1 place.2.1).offsetIndex.bind fun locations =>
    locations[place.2.2]?

/-- An integer of the indexes as a double, where it is there. -/
def orNA (value : Option ℤ) : RDouble :=
  (value.map intToDouble).getD .na

/-- The row of a page. -/
def IndexedFile.pageRow (place : PagePlace) : Except InspectError PageIndexRow := do
  let leaf := file.leaf place.2.1
  let stats := file.pageStats place
  let location := file.pageLocation place
  let low ← statisticValue leaf (stats.bind PageStats.minValue)
  let high ← statisticValue leaf (stats.bind PageStats.maxValue)
  return {
    rowGroup := place.1 + 1
    column := place.2.1 + 1
    path := leaf.leaf.dottedPath
    page := place.2.2 + 1
    firstRow := orNA (location.map PageLocation.firstRowIndex)
    offset := orNA (location.map PageLocation.offset)
    compressedBytes := orNA (location.map PageLocation.compressedSize)
    nullCount := orNA (stats.map PageStats.nullCount)
    nullPage := stats.map PageStats.isNullPage
    min := low
    max := high }

/-- The filling pass: loops over row groups, columns and pages that stop when
`total` rows are there. -/
def IndexedFile.fillPages (total : Nat) :
    Except InspectError (List PageIndexRow) :=
  fillWhile total
    (fun out group => fillWhile total
      (fun out column => fillWhile total
        (fun out page => do
          let row ← file.pageRow (group, column, page)
          return out ++ [row])
        (List.range (file.filledPages group column)) out)
      (List.range file.leaves.length) out)
    (List.range file.numRowGroups) []

/-- `qio_parquet_page_index`. -/
def IndexedFile.pageIndex : Except InspectError (List PageIndexRow) :=
  file.fillPages file.countPages

end Passes

section Laws

variable (file : IndexedFile)

/-- All pages of the file, in the order of the loops. -/
def IndexedFile.places : List PagePlace :=
  (List.range file.numRowGroups).flatMap fun group =>
    (List.range file.leaves.length).flatMap fun column =>
      (List.range (file.filledPages group column)).map fun page =>
        (group, column, page)

/-- The filling pass visits the pages in order, up to the number counted. -/
theorem fillPages_eq
    (total : Nat) :
    file.fillPages total = emitInto total file.pageRow file.places [] := by
  have hpages : ∀ group column,
      Fills total (fun page => [(group, column, page)]) file.pageRow
        fun out page => do
          let row ← file.pageRow (group, column, page)
          return out ++ [row] :=
    fun group column => Fills.push fun page => (group, column, page)
  have hcolumns := fun group => Fills.nest (hpages group)
    fun column => List.range (file.filledPages group column)
  have hgroups := Fills.nest hcolumns fun _ => List.range file.leaves.length
  rw [IndexedFile.fillPages, fillWhile_eq hgroups]
  simp only [IndexedFile.places, List.map_eq_flatMap]

variable {file}

theorem place_pageRow
    {place : PagePlace} {row : PageIndexRow}
    (h : file.pageRow place = .ok row) :
    row.place = place := by
  simp only [IndexedFile.pageRow, bind_eq_ok_iff, pure_eq_ok, Except.ok.injEq] at h
  obtain ⟨low, -, high, -, rfl⟩ := h
  rfl

/-- The pages reported are the first ones of the file, as many as were counted. -/
theorem places_pageIndex
    {rows : List PageIndexRow}
    (h : file.pageIndex = .ok rows) :
    rows.map PageIndexRow.place = file.places.take file.countPages := by
  rw [IndexedFile.pageIndex, fillPages_eq] at h
  have hrows := forall₂_of_mapM_ok (emitInto_nil_eq_ok.mp h)
  have hplaces := hrows.imp fun _ _ hrow => (place_pageRow hrow).symm
  rw [← List.forall₂_map_right_iff, List.forall₂_eq_eq_eq] at hplaces
  exact hplaces.symm

theorem length_places :
    file.places.length =
      ((List.range file.numRowGroups).map fun group =>
        ((List.range file.leaves.length).map fun column =>
          file.filledPages group column).sum).sum := by
  simp [IndexedFile.places, List.length_flatMap]

theorem countedPages_le
    (group column : Nat) :
    file.countedPages group column ≤ file.filledPages group column := by
  simp only [IndexedFile.countedPages, IndexedFile.filledPages]
  split_ifs
  · exact le_max_right _ _
  · exact le_max_left _ _

theorem countedPages_eq_iff
    (group column : Nat) :
    file.countedPages group column = file.filledPages group column ↔
      file.statsPages group column = 0 ∨
        file.locatedPages group column ≤ file.statsPages group column := by
  simp only [IndexedFile.countedPages, IndexedFile.filledPages]
  split_ifs with hzero
  · rw [hzero, Nat.zero_max]
    exact iff_of_true rfl (Or.inl rfl)
  · rw [eq_comm, max_eq_left_iff]
    simp [hzero]

/-- Both passes see the same number of pages exactly when they do in every chunk. -/
theorem countPages_eq_iff :
    file.countPages = file.places.length ↔
      ∀ group < file.numRowGroups, ∀ column < file.leaves.length,
        file.countedPages group column = file.filledPages group column := by
  have hsum : ∀ (n : Nat) (f : Nat → Nat),
      ((List.range n).map f).sum = ∑ i ∈ Finset.range n, f i := fun _ _ => rfl
  rw [length_places, IndexedFile.countPages]
  simp only [hsum]
  rw [Finset.sum_eq_sum_iff_of_le fun group _ =>
    Finset.sum_le_sum fun column _ => countedPages_le group column]
  simp only [Finset.mem_range]
  refine forall₂_congr fun group _ => ?_
  rw [Finset.sum_eq_sum_iff_of_le fun column _ => countedPages_le group column]
  simp only [Finset.mem_range]

variable (file)

/-- Every page of every chunk is reported, in order, exactly when no chunk has a
column index with pages but fewer than its offset index. -/
theorem page_index_complete_iff
    (rows : List PageIndexRow)
    (h : file.pageIndex = .ok rows) :
    rows.map PageIndexRow.place = file.places ↔
      ∀ group < file.numRowGroups, ∀ column < file.leaves.length,
        file.statsPages group column = 0 ∨
          file.locatedPages group column ≤ file.statsPages group column := by
  have hle : file.countPages ≤ file.places.length := by
    rw [length_places, IndexedFile.countPages]
    exact List.sum_le_sum fun group _ =>
      List.sum_le_sum fun column _ => countedPages_le group column
  rw [places_pageIndex h, List.take_eq_self_iff, hle.ge_iff_eq, countPages_eq_iff]
  simp only [countedPages_eq_iff]

/-- An INT32 column with two row groups: page bounds for `stats` pages and places
for `located` pages of the first, and one of each for the second. -/
def twoChunks (stats located : Nat) : IndexedFile where
  leaves := [⟨["x"], .int32, none, 0, 0, 0, .required⟩]
  numRowGroups := 2
  indexes group _ :=
    match group with
    | 0 => indexesOf stats located
    | _ => indexesOf 1 1
where
  indexesOf (stats located : Nat) : ChunkIndexes :=
    ⟨some ⟨some (List.replicate stats false), none, none, none⟩,
      some (List.replicate located ⟨4, 8, 0⟩)⟩

theorem page_index_complete_iff_equal :
    ∃ rows, (twoChunks 2 2).pageIndex = .ok rows ∧
      rows.map PageIndexRow.place = [(0, 0, 0), (0, 0, 1), (1, 0, 0)] := by
  refine ⟨_, rfl, (page_index_complete_iff (twoChunks 2 2) _ rfl).mpr ?_⟩
  intro group _ column _
  refine Or.inr ?_
  match group with
  | 0 =>
      exact le_rfl
  | _ + 1 =>
      exact le_rfl

/-- The offset index of the first chunk has a page more than its column index: the
page of the second chunk is not reported. -/
theorem page_of_second_chunk_dropped :
    ∃ rows, (twoChunks 1 2).pageIndex = .ok rows ∧
      rows.map PageIndexRow.place = [(0, 0, 0), (0, 0, 1)] ∧
      (twoChunks 1 2).places = [(0, 0, 0), (0, 0, 1), (1, 0, 0)] ∧
      rows.map PageIndexRow.place ≠ (twoChunks 1 2).places :=
  ⟨_, rfl, rfl, rfl, by decide⟩

end Laws

end Inspect
end QioParquet
