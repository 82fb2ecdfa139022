import QioParquet.Append.Footer
import Mathlib.Tactic

/-!
# What an append says about earlier row groups

The entry of a row group says how the group is sorted and, for each of its
columns, the encodings, the counts of missing and of distinct values, and the
bounds. An append writes all entries anew. This module states which entries come
out saying the same: those whose order is the one declared by the call, whose
encodings are at most three, which have no distinct count, and whose bounds are
two non-empty values the size limit does not cut.
-/

namespace QioParquet
namespace Footer

open Read Plan

section SortedBy

/-- A row of `sorted_by`; `none` is `NA`. -/
structure SortRow where
  name : String
  descending : Option Bool
  nullsFirst : Option Bool
deriving DecidableEq

inductive SortError where
  | missingFlag
  | unknown (names : List String)
  | repeated
deriving DecidableEq

def SortError.message : SortError → String
  | .missingFlag => "`descending` and `nulls_first` must not be NA."
  | .unknown names =>
      "`sorted_by` names a column that is not being written: " ++
        ", ".intercalate names
  | .repeated => "`sorted_by` names the same column more than once."

/-- `qio_sorted_by`, of an argument in the form of a data frame. -/
def qioSortedBy (sortedBy : Option (List SortRow)) (columns : List String) :
    Except SortError (List SortingColumn) :=
  match sortedBy with
  | none => .ok []
  | some rows =>
      if rows.any fun row => row.descending.isNone || row.nullsFirst.isNone then
        .error .missingFlag
      else if rows.any fun row => !columns.contains row.name then
        .error (.unknown ((rows.map SortRow.name).filter fun name =>
          !columns.contains name))
      else if (rows.map fun row => columns.idxOf row.name).Nodup then
        .ok (rows.map fun row =>
          ⟨columns.idxOf row.name, row.descending.getD false,
            row.nullsFirst.getD false⟩)
      else
        .error .repeated

end SortedBy

section Said

def ColumnChunk.nullCount (chunk : ColumnChunk) : Option ℤ :=
  chunk.statistics.bind Statistics.nullCount

def ColumnChunk.distinctCount (chunk : ColumnChunk) : Option ℤ :=
  chunk.statistics.bind Statistics.distinctCount

/-- The lower bound, in its present or its old field. -/
def Statistics.minimum (s : Statistics) : Option Bytes :=
  s.minValue.or s.minDeprecated

/-- The upper bound, in its present or its old field. -/
def Statistics.maximum (s : Statistics) : Option Bytes :=
  s.maxValue.or s.maxDeprecated

def ColumnChunk.minimum (chunk : ColumnChunk) : Option Bytes :=
  chunk.statistics.bind Statistics.minimum

def ColumnChunk.maximum (chunk : ColumnChunk) : Option Bytes :=
  chunk.statistics.bind Statistics.maximum

/-- Two entries of a column chunk that say the same. -/
structure ColumnChunk.SaysSame (before after : ColumnChunk) : Prop where
  encodings : after.encodings = before.encodings
  nullCount : after.nullCount = before.nullCount
  distinctCount : after.distinctCount = before.distinctCount
  minimum : after.minimum = before.minimum
  maximum : after.maximum = before.maximum

/-- Two entries of a row group that say the same. -/
structure RowGroupEntry.SaysSame (before after : RowGroupEntry) : Prop where
  sortingColumns : after.sortingColumns = before.sortingColumns
  columns : List.Forall₂ ColumnChunk.SaysSame before.columns after.columns

/-- Bounds that survive: none at all, or two non-empty ones in the present fields
that the size limit leaves alone. -/
def ColumnChunk.BoundsFit (chunk : ColumnChunk) : Prop :=
  (chunk.minimum = none ∧ chunk.maximum = none) ∨
    ∃ s low high, chunk.statistics = some s ∧
      s.minValue = some low ∧ s.maxValue = some high ∧
      low ≠ [] ∧ high ≠ [] ∧
      (chunk.type = .byteArray →
        low.length ≤ maxStatisticsSize ∧ high.length ≤ maxStatisticsSize)

/-- Entries of column chunks an append keeps. -/
structure ColumnChunk.Kept (chunk : ColumnChunk) : Prop where
  encodings : 0 < chunk.encodings.length ∧ chunk.encodings.length ≤ 3
  distinctCount : chunk.distinctCount = none
  bounds : chunk.BoundsFit

/-- Entries of row groups an append that declares `order` keeps. -/
structure RowGroupEntry.Kept
    (order : List SortingColumn) (group : RowGroupEntry) : Prop where
  sortingColumns : group.sortingColumns = order
  columns : ∀ chunk ∈ group.columns, chunk.Kept

end Said

section Bounds

theorem length_raiseLast_le
    (bytes : List UInt8) :
    (raiseLast bytes).length ≤ bytes.length := by
  induction bytes with
  | nil =>
      simp [raiseLast]
  | cons byte rest ih =>
      unfold raiseLast
      split_ifs
      · exact ih.trans (Nat.le_succ _)
      · simp

/-- A bound that is cut is not the one it was. -/
theorem truncatedMax_ne
    (high : Bytes)
    (hlong : maxStatisticsSize < high.length) :
    truncatedMax high ≠ some high := by
  intro h
  have hshort :
      (raiseLast (high.take maxStatisticsSize).reverse).length ≤
        maxStatisticsSize := by
    refine (length_raiseLast_le _).trans ?_
    simp
  unfold truncatedMax at h
  split at h
  · cases h
  · next byte rest hraised =>
      rw [hraised] at hshort
      have hlen := congrArg List.length (Option.some.inj h)
      rw [List.length_reverse] at hlen
      omega

theorem take_ne_of_lt
    (low : Bytes)
    (hlong : maxStatisticsSize < low.length) :
    low.take maxStatisticsSize ≠ low := by
  intro h
  have hlen := congrArg List.length h
  rw [List.length_take] at hlen
  omega

theorem minimum_buildBounds_iff
    (column : ColumnDef) (type : PhysicalType) (nullCount : Option ℤ)
    (low high : Bytes) :
    (buildBounds column type nullCount low high).minimum = some low ↔
      (type = .byteArray → low.length ≤ maxStatisticsSize) := by
  simp only [buildBounds, Statistics.minimum, Option.some_or, Option.some.injEq]
  split_ifs with hcut
  · exact iff_of_false (take_ne_of_lt low hcut.2) fun h =>
      absurd (h hcut.1) (Nat.not_le.mpr hcut.2)
  · refine iff_of_true rfl fun htype => ?_
    by_contra hlong
    exact hcut ⟨htype, Nat.not_le.mp hlong⟩

theorem maximum_buildBounds_iff
    (column : ColumnDef) (type : PhysicalType) (nullCount : Option ℤ)
    (low high : Bytes) :
    (buildBounds column type nullCount low high).maximum = some high ↔
      (type = .byteArray → high.length ≤ maxStatisticsSize) := by
  by_cases hcut : type = .byteArray ∧ maxStatisticsSize < high.length
  · have hmax :
        (buildBounds column type nullCount low high).maximum =
          truncatedMax high := by
      simp [buildBounds, Statistics.maximum, hcut]
    rw [hmax]
    exact iff_of_false (truncatedMax_ne high hcut.2) fun h =>
      absurd (h hcut.1) (Nat.not_le.mpr hcut.2)
  · have hmax :
        (buildBounds column type nullCount low high).maximum = some high := by
      simp [buildBounds, Statistics.maximum, hcut]
    refine iff_of_true hmax fun htype => ?_
    by_contra hlong
    exact hcut ⟨htype, Nat.not_le.mp hlong⟩

end Bounds

section Chunks

@[simp] theorem nullCount_parseStatistics
    (s : Statistics) :
    (parseStatistics s).nullCount = s.nullCount :=
  rfl

/-- The bounds of a chunk that reach the writer. -/
theorem restoredMinMax_parse_eq_some_iff
    (s : Statistics) (low high : Bytes) :
    restoredMinMax (parseStatistics s) = some (low, high) ↔
      s.minValue = some low ∧ s.maxValue = some high ∧
        low ≠ [] ∧ high ≠ [] := by
  unfold restoredMinMax parseStatistics arenaBindup
  rcases s.minValue with _ | first
  · simp
  rcases s.maxValue with _ | second
  · simp
  cases first <;> cases second <;> simp
  all_goals grind

/-- The cache always has an encoding to offer. -/
theorem cachedEncodings_ne_nil
    (started compressed : Bool) (column : ColumnDef) :
    cachedEncodings started compressed column ≠ [] := by
  unfold cachedEncodings
  split
  · split <;> simp
  · simp

variable (started compressed : Bool) (column : ColumnDef)

/-- The entry an append writes for a chunk of the file. -/
def rewritten (chunk : ColumnChunk) : ColumnChunk :=
  buildColumnChunk started compressed column
    (appendRestoreColumnChunk (parseColumnChunk chunk))

theorem encodings_rewritten_iff
    (chunk : ColumnChunk) :
    (rewritten started compressed column chunk).encodings = chunk.encodings ↔
      0 < chunk.encodings.length ∧ chunk.encodings.length ≤ 3 := by
  change (if 0 < (chunk.encodings.take 3).length then chunk.encodings.take 3
      else cachedEncodings started compressed column) = chunk.encodings ↔ _
  rw [List.length_take]
  split_ifs with hsome
  · rw [List.take_eq_self_iff]
    omega
  · have hnil : chunk.encodings = [] := List.length_eq_zero_iff.mp (by omega)
    rw [hnil]
    exact iff_of_false (cachedEncodings_ne_nil started compressed column) (by simp)

/-- What the statistics of a rewritten chunk are, by the bounds restored. -/
theorem statistics_rewritten
    (chunk : ColumnChunk) :
    (rewritten started compressed column chunk).statistics =
      chunk.statistics.map fun s =>
        match restoredMinMax (parseStatistics s) with
        | some (low, high) => buildBounds column chunk.type s.nullCount low high
        | none => ⟨none, none, s.nullCount, none, none, none, none, none⟩ := by
  change buildStatistics column
    (appendRestoreColumnChunk (parseColumnChunk chunk)) = _
  unfold buildStatistics appendRestoreColumnChunk parseColumnChunk
  rcases hs : chunk.statistics with _ | s
  · simp
  rcases hbounds : restoredMinMax (parseStatistics s) with _ | ⟨low, high⟩
  · simp [hbounds]
  · obtain ⟨-, -, hlow, hhigh⟩ :=
      (restoredMinMax_parse_eq_some_iff s low high).mp hbounds
    have hpos : 0 < low.length ∧ 0 < high.length :=
      ⟨List.length_pos_iff.mpr hlow, List.length_pos_iff.mpr hhigh⟩
    simp [hbounds, hpos]

theorem nullCount_rewritten
    (chunk : ColumnChunk) :
    (rewritten started compressed column chunk).nullCount =
      chunk.nullCount := by
  unfold ColumnChunk.nullCount
  rw [statistics_rewritten]
  rcases chunk.statistics with _ | s
  · rfl
  · rcases hbounds : restoredMinMax (parseStatistics s) with _ | ⟨low, high⟩ <;>
      simp [hbounds, buildBounds]

theorem distinctCount_rewritten
    (chunk : ColumnChunk) :
    (rewritten started compressed column chunk).distinctCount = none := by
  unfold ColumnChunk.distinctCount
  rw [statistics_rewritten]
  rcases chunk.statistics with _ | s
  · rfl
  · rcases hbounds : restoredMinMax (parseStatistics s) with _ | ⟨low, high⟩ <;>
      simp [hbounds, buildBounds]

/-- Both bounds come through exactly when they fit. -/
theorem bounds_rewritten_iff
    (chunk : ColumnChunk) :
    ((rewritten started compressed column chunk).minimum = chunk.minimum ∧
        (rewritten started compressed column chunk).maximum = chunk.maximum) ↔
      chunk.BoundsFit := by
  unfold ColumnChunk.BoundsFit ColumnChunk.minimum ColumnChunk.maximum
  rw [statistics_rewritten]
  rcases hs : chunk.statistics with _ | s
  · simp
  rcases hbounds : restoredMinMax (parseStatistics s) with _ | ⟨low, high⟩
  · -- nothing was restored, so the new entry has no bounds
    have hnone : ∀ low high, ¬ (s.minValue = some low ∧ s.maxValue = some high ∧
        low ≠ [] ∧ high ≠ []) := by
      intro low high h
      rw [(restoredMinMax_parse_eq_some_iff s low high).mpr h] at hbounds
      cases hbounds
    simp only [Option.map_some, Option.bind_some, hbounds, Statistics.minimum,
      Statistics.maximum, Option.or_none]
    constructor
    · rintro ⟨hmin, hmax⟩
      exact Or.inl ⟨hmin.symm, hmax.symm⟩
    · rintro (⟨hmin, hmax⟩ | ⟨_, low, high, ⟨⟩, hlow, hhigh, hne, hne', -⟩)
      · exact ⟨hmin.symm, hmax.symm⟩
      · exact absurd ⟨hlow, hhigh, hne, hne'⟩ (hnone low high)
  · obtain ⟨hlow, hhigh, hne, hne'⟩ :=
      (restoredMinMax_parse_eq_some_iff s low high).mp hbounds
    have hmin : s.minimum = some low := by
      simp [Statistics.minimum, hlow]
    have hmax : s.maximum = some high := by
      simp [Statistics.maximum, hhigh]
    simp only [Option.map_some, Option.bind_some, hbounds, hmin, hmax,
      minimum_buildBounds_iff, maximum_buildBounds_iff]
    constructor
    · rintro ⟨hfit, hfit'⟩
      exact Or.inr ⟨s, low, high, rfl, hlow, hhigh, hne, hne',
        fun htype => ⟨hfit htype, hfit' htype⟩⟩
    · rintro (⟨h, -⟩ | ⟨_, low', high', ⟨⟩, hlow', hhigh', -, -, hfit⟩)
      · cases h
      · obtain rfl : low' = low := Option.some.inj (hlow'.symm.trans hlow)
        obtain rfl : high' = high := Option.some.inj (hhigh'.symm.trans hhigh)
        exact ⟨fun htype => (hfit htype).1, fun htype => (hfit htype).2⟩

theorem saysSame_rewritten_iff
    (chunk : ColumnChunk) :
    chunk.SaysSame (rewritten started compressed column chunk) ↔
      chunk.Kept := by
  constructor
  · intro h
    refine ⟨(encodings_rewritten_iff _ _ _ chunk).mp h.encodings, ?_,
      (bounds_rewritten_iff _ _ _ chunk).mp ⟨h.minimum, h.maximum⟩⟩
    rw [← h.distinctCount, distinctCount_rewritten]
  · intro h
    obtain ⟨hmin, hmax⟩ :=
      (bounds_rewritten_iff started compressed column chunk).mpr h.bounds
    exact ⟨(encodings_rewritten_iff _ _ _ chunk).mpr h.encodings,
      nullCount_rewritten _ _ _ chunk,
      (distinctCount_rewritten _ _ _ chunk).trans h.distinctCount.symm,
      hmin, hmax⟩

end Chunks

section Groups

theorem forall₂_rewritten_iff
    (started compressed : Bool) (columns : List ColumnDef)
    (chunks : List ColumnChunk)
    (hlen : chunks.length = columns.length) :
    List.Forall₂ ColumnChunk.SaysSame chunks
        (List.zipWith (rewritten started compressed) columns chunks) ↔
      ∀ chunk ∈ chunks, chunk.Kept := by
  induction chunks generalizing columns with
  | nil =>
      simp
  | cons chunk rest ih =>
      obtain ⟨column, others, rfl⟩ :=
        List.exists_cons_of_length_eq_add_one hlen.symm
      have hrest : rest.length = others.length := by
        simpa using hlen
      rw [List.zipWith_cons_cons, List.forall₂_cons, ih others hrest,
        saysSame_rewritten_iff, List.forall_mem_cons]

variable (options : FooterOptions)

/-- The entry an append writes for a row group of the file. -/
def rewrittenGroup (group : RowGroupEntry) (i : Nat) : RowGroupEntry :=
  buildRowGroup options (appendRestoreRowGroup (parseRowGroup group) i)

theorem columns_rewrittenGroup
    (group : RowGroupEntry) (i : Nat) :
    (rewrittenGroup options group i).columns =
      List.zipWith (rewritten options.started options.compressed)
        options.columns group.columns := by
  change List.zipWith _ _ ((group.columns.map parseColumnChunk).map
    appendRestoreColumnChunk) = _
  rw [List.map_map, List.zipWith_map_right]
  rfl

theorem saysSame_rewrittenGroup_iff
    (group : RowGroupEntry) (i : Nat)
    (hlen : group.columns.length = options.columns.length) :
    group.SaysSame (rewrittenGroup options group i) ↔
      group.Kept options.sortingColumns := by
  have hcolumns :=
    forall₂_rewritten_iff options.started options.compressed options.columns
      group.columns hlen
  rw [← columns_rewrittenGroup options group i] at hcolumns
  exact ⟨fun h => ⟨h.sortingColumns.symm, hcolumns.mp h.columns⟩,
    fun h => ⟨h.sortingColumns.symm, hcolumns.mpr h.columns⟩⟩

theorem forall₂_rewrittenGroup_iff
    (groups : List RowGroupEntry) (start : Nat)
    (hlen : ∀ group ∈ groups, group.columns.length = options.columns.length) :
    List.Forall₂ RowGroupEntry.SaysSame groups
        ((groups.zipIdx start).map fun entry =>
          rewrittenGroup options entry.1 entry.2) ↔
      ∀ group ∈ groups, group.Kept options.sortingColumns := by
  induction groups generalizing start with
  | nil =>
      simp
  | cons group rest ih =>
      obtain ⟨hgroup, hrest⟩ := List.forall_mem_cons.mp hlen
      rw [List.zipIdx_cons, List.map_cons, List.forall₂_cons,
        ih (start + 1) hrest, saysSame_rewrittenGroup_iff options group start hgroup,
        List.forall_mem_cons]

/-- The row groups of the file come first in the new footer, each rewritten. -/
theorem take_buildRowGroups
    {old : List RowGroupEntry} {restored : List RowGroupInfo}
    (new : List RowGroupInfo)
    (hrestore : appendRestoreRowGroups options.columns.length
      (old.map parseRowGroup) = some restored) :
    (∀ group ∈ old, group.columns.length = options.columns.length) ∧
      (buildRowGroups options (restored ++ new)).take old.length =
        old.zipIdx.map fun entry => rewrittenGroup options entry.1 entry.2 := by
  unfold appendRestoreRowGroups at hrestore
  split_ifs at hrestore with hlen
  · obtain rfl := Option.some.inj hrestore
    refine ⟨fun group hmem => ?_, ?_⟩
    · simpa [parseRowGroup] using hlen _ (List.mem_map_of_mem hmem)
    · unfold buildRowGroups
      rw [List.map_append, List.take_left' (by simp), List.zipIdx_map,
        List.map_map, List.map_map]
      rfl

end Groups

section Result

/-- What an append takes from the call, once its schema has been accepted. -/
structure AppendCall where
  columns : List ColumnDef
  names : List String
  sortedBy : Option (List SortRow)
  started : Bool
  compressed : Bool

inductive AppendError where
  | sortedBy (error : SortError)
  | restoreRowGroups
deriving DecidableEq

/-- The row groups of the footer an append writes: those of the file, and the
ones the data frame has become. -/
def AppendCall.rowGroups (call : AppendCall)
    (old : List RowGroupEntry) (new : List RowGroupInfo) :
    Except AppendError (List RowGroupEntry) := do
  let order ← (qioSortedBy call.sortedBy call.names).mapError .sortedBy
  match appendRestoreRowGroups call.columns.length (old.map parseRowGroup) with
  | some restored =>
      return buildRowGroups ⟨call.columns, call.started, call.compressed, order⟩
        (restored ++ new)
  | none => .error .restoreRowGroups

theorem AppendCall.rowGroups_ok
    {call : AppendCall} {old : List RowGroupEntry} {new : List RowGroupInfo}
    {entries : List RowGroupEntry}
    (h : call.rowGroups old new = .ok entries) :
    ∃ order restored,
      qioSortedBy call.sortedBy call.names = .ok order ∧
      appendRestoreRowGroups call.columns.length (old.map parseRowGroup) =
        some restored ∧
      entries = buildRowGroups
        ⟨call.columns, call.started, call.compressed, order⟩
        (restored ++ new) := by
  unfold AppendCall.rowGroups at h
  rcases horder : qioSortedBy call.sortedBy call.names with error | order
  · rw [horder] at h
    cases h
  rw [horder] at h
  rcases hrestore : appendRestoreRowGroups call.columns.length
      (old.map parseRowGroup) with _ | restored
  · rw [hrestore] at h
    cases h
  · rw [hrestore] at h
    cases h
    exact ⟨order, restored, rfl, rfl, rfl⟩

/-- After an append the entries of the earlier row groups say what they said
exactly when each of them has the order declared by the call, one to three
encodings, no distinct count and bounds that fit. -/
theorem earlier_entries_kept_iff
    (call : AppendCall) (old : List RowGroupEntry) (new : List RowGroupInfo)
    (entries : List RowGroupEntry)
    (h : call.rowGroups old new = .ok entries) :
    List.Forall₂ RowGroupEntry.SaysSame old (entries.take old.length) ↔
      ∀ group ∈ old,
        qioSortedBy call.sortedBy call.names = .ok group.sortingColumns ∧
          ∀ chunk ∈ group.columns, chunk.Kept := by
  obtain ⟨order, restored, horder, hrestore, rfl⟩ := AppendCall.rowGroups_ok h
  obtain ⟨hlen, htake⟩ := take_buildRowGroups
    ⟨call.columns, call.started, call.compressed, order⟩ new hrestore
  rw [htake, forall₂_rewrittenGroup_iff _ old 0 hlen, horder]
  refine forall₂_congr fun group _ => ⟨fun hkept => ?_, fun hkept => ?_⟩
  · exact ⟨congrArg Except.ok hkept.sortingColumns.symm, hkept.columns⟩
  · exact ⟨(Except.ok.inj hkept.1).symm, hkept.2⟩

/-- An INT32 chunk with 0 as both bounds. -/
def zeroChunk : ColumnChunk where
  fileOffset := 4
  type := .int32
  encodings := [.plain, .rle]
  codec := 0
  numValues := 1
  totalUncompressedSize := 30
  totalCompressedSize := 30
  dataPageOffset := 4
  dictionaryPageOffset := none
  statistics := some ⟨none, none, some 0, none, some [0, 0, 0, 0],
    some [0, 0, 0, 0], none, none⟩
  bloomFilterOffset := none
  bloomFilterLength := none
  offsetIndexOffset := none
  offsetIndexLength := none
  columnIndexOffset := none
  columnIndexLength := none

/-- A row group of this chunk, with a declared order. -/
def zeroGroup (order : List SortingColumn) : RowGroupEntry :=
  ⟨[zeroChunk], 30, 1, order, some 4, some 30, some 0⟩

/-- An append to a file with one INT32 column, without `sorted_by`. -/
def unsortedAppend : AppendCall :=
  ⟨[⟨.int32, none, none⟩], ["x"], none, true, false⟩

theorem earlier_entries_kept_iff_zero :
    List.Forall₂ RowGroupEntry.SaysSame [zeroGroup []]
      [rewrittenGroup ⟨unsortedAppend.columns, true, false, []⟩
        (zeroGroup []) 0] := by
  refine (earlier_entries_kept_iff unsortedAppend [zeroGroup []] []
    [rewrittenGroup ⟨unsortedAppend.columns, true, false, []⟩
      (zeroGroup []) 0] rfl).mpr ?_
  simp only [List.mem_singleton, forall_eq]
  refine ⟨rfl, fun chunk hmem => ?_⟩
  obtain rfl := List.mem_singleton.mp hmem
  refine ⟨by simp [zeroChunk], rfl, Or.inr ?_⟩
  exact ⟨_, _, _, rfl, rfl, rfl, by simp, by simp, nofun⟩

/-- The order declared by the call that wrote the row group is gone after an
append without one. -/
theorem declared_order_dropped :
    ∃ entries,
      unsortedAppend.rowGroups [zeroGroup [⟨0, false, false⟩]] [] = .ok entries ∧
        ¬ List.Forall₂ RowGroupEntry.SaysSame [zeroGroup [⟨0, false, false⟩]]
          (entries.take 1) := by
  refine ⟨[rewrittenGroup ⟨unsortedAppend.columns, true, false, []⟩
    (zeroGroup [⟨0, false, false⟩]) 0], rfl, fun h => ?_⟩
  obtain ⟨hgroup, -⟩ := List.forall₂_cons.mp h
  cases hgroup.sortingColumns

end Result

end Footer
end QioParquet
