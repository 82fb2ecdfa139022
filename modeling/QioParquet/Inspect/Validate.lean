import QioParquet.Read.FailureLaws
import QioParquet.Write.Output
import Mathlib.Tactic

/-!
# Validated row counts

A footer states the number of rows of the file and the number of rows of every
row group. `validate_parquet()` compares the two as doubles; `collect()` adds the
row groups up again as 64-bit integers, and a third time when it lays them out in
the result. The counts of a validated file are related here to those two sums.

The comparison of the validator is made only where there is a row group, says
nothing of the sign of a count, and is between rounded numbers. What is left to ask
of the counts for a validated file to be read with the rows it reports is the
condition `CountsHold`.
-/

namespace QioParquet
namespace Inspect

open Lib Read

section Footers

/-- A parsed footer: the row count of the file, its row groups and its leaves. The
counts are signed 64-bit integers and are not checked by the parser. -/
structure ParsedFooter where
  numRows : ℤ
  rowGroups : List RowGroup
  leaves : List Leaf
  numRows_int64 : IsInt64 numRows
  groups_int64 : ∀ group ∈ rowGroups, IsInt64 group.numRows

namespace ParsedFooter

def counts (footer : ParsedFooter) : List ℤ :=
  footer.rowGroups.map RowGroup.numRows

/-- `dim()`: the row count as a double, and the number of leaves. -/
def dim (footer : ParsedFooter) : ℚ × Nat :=
  (binary64.round footer.numRows, footer.leaves.length)

/-- The `rows` of `row_groups()`. -/
def groupRows (footer : ParsedFooter) : List ℚ :=
  footer.counts.map fun count : ℤ => binary64.round count

/-- The number of rows of `schema()`, one for every leaf. -/
def schemaRows (footer : ParsedFooter) : Nat :=
  footer.leaves.length

end ParsedFooter

/-- The format of the accumulator of `sum()`, a `long double`: at least a double. -/
structure LongDouble where
  format : BinaryFormat
  precision_le : binary64.precision ≤ format.precision
  minExp_le : format.minExp ≤ binary64.minExp

/-- R's `sum()` of finite doubles. -/
def sumDoubles (accumulator : LongDouble) (values : List ℚ) : ℚ :=
  binary64.round (accumulator.format.sum values)

end Footers

section Validation

/-- `PARE`, the marker of an encrypted footer. -/
def encryptedMagic : Bytes := [0x50, 0x41, 0x52, 0x45]

/-- What a path leads to: a directory, a file whose size cannot be told, or the
bytes of a file. -/
inductive Target where
  | directory
  | unsized
  | file (contents : Bytes)

/-- The errors of `qio_validate_file`. -/
inductive ValidateError where
  | directory (path : String)
  | tooSmall (size : Option Nat)
  | encryptedFooter
  | noLeadingMarker
  | noTrailingMarker
  | footer (reason : String)
  | rowCounts (declared held : ℚ)
  | columnCounts (declared described : Nat)

/-- The texts, given R's text of a double. -/
def ValidateError.message (asCharacter : ℚ → String) : ValidateError → String
  | .directory path => "`file` is a directory, not a Parquet file: " ++ path
  | .tooSmall none => "`file` is too small to be a Parquet file: unknown size"
  | .tooSmall (some size) =>
      s!"`file` is too small to be a Parquet file: {size} bytes"
  | .encryptedFooter => "`file` has an encrypted footer, which qio cannot read."
  | .noLeadingMarker =>
      "`file` does not start with the Parquet marker 'PAR1', so it is not a " ++
        "Parquet file."
  | .noTrailingMarker =>
      "`file` does not end with the Parquet marker 'PAR1'. It is truncated, " ++
        "or was still being written."
  | .footer reason =>
      "`file` has both Parquet markers but its footer does not parse: " ++ reason
  | .rowCounts declared held =>
      "`file` declares " ++ asCharacter declared ++
        " rows but its row groups hold " ++ asCharacter held ++ "."
  | .columnCounts declared described =>
      s!"`file` declares {declared} columns but its schema describes {described}."

/-- The checks of a footer that parses. -/
def checkCounts
    (accumulator : LongDouble) (footer : ParsedFooter) :
    Except ValidateError Bool :=
  if 0 < footer.groupRows.length ∧
      sumDoubles accumulator footer.groupRows ≠ footer.dim.1 then
    .error (.rowCounts footer.dim.1 (sumDoubles accumulator footer.groupRows))
  else if footer.schemaRows ≠ footer.dim.2 then
    .error (.columnCounts footer.dim.2 footer.schemaRows)
  else
    .ok true

/-- `qio_validate_file`, given what `open_parquet()` makes of the bytes. -/
def validateFile
    (accumulator : LongDouble)
    (openParquet : Bytes → Except String ParsedFooter)
    (path : String) : Target → Except ValidateError Bool
  | .directory => .error (.directory path)
  | .unsized => .error (.tooSmall none)
  | .file contents =>
      let head := contents.take 4
      let tail := contents.drop (contents.length - 4)
      if contents.length < 12 then
        .error (.tooSmall (some contents.length))
      else if head = encryptedMagic ∨ tail = encryptedMagic then
        .error .encryptedFooter
      else if head ≠ Write.magic then
        .error .noLeadingMarker
      else if tail ≠ Write.magic then
        .error .noTrailingMarker
      else
        match openParquet contents with
        | .error reason => .error (.footer reason)
        | .ok footer => checkCounts accumulator footer

theorem checkCounts_ok_iff
    {accumulator : LongDouble} {footer : ParsedFooter} :
    checkCounts accumulator footer = .ok true ↔
      footer.rowGroups = [] ∨
        sumDoubles accumulator footer.groupRows = footer.dim.1 := by
  have hlength : 0 < footer.groupRows.length ↔ footer.rowGroups ≠ [] := by
    simp [ParsedFooter.groupRows, ParsedFooter.counts, List.length_pos_iff]
  rw [checkCounts]
  split_ifs with hrows hcolumns
  · refine iff_of_false nofun ?_
    rintro (hnil | hsum)
    · exact hlength.mp hrows.1 hnil
    · exact hrows.2 hsum
  · exact absurd rfl hcolumns
  · rw [hlength, not_and_or, not_not, not_not] at hrows
    exact iff_of_true rfl hrows

/-- A file is validated when it has both markers and a footer whose row groups, if
there are any, add up in doubles. -/
theorem validateFile_ok_iff
    {accumulator : LongDouble} {openParquet : Bytes → Except String ParsedFooter}
    {path : String} {contents : Bytes} {footer : ParsedFooter}
    (hopen : openParquet contents = .ok footer) :
    validateFile accumulator openParquet path (.file contents) = .ok true ↔
      12 ≤ contents.length ∧ contents.take 4 = Write.magic ∧
        contents.drop (contents.length - 4) = Write.magic ∧
        (footer.rowGroups = [] ∨
          sumDoubles accumulator footer.groupRows = footer.dim.1) := by
  have hmarkers : Write.magic ≠ encryptedMagic := by
    decide
  simp only [validateFile, hopen]
  split_ifs with hsize hpare hhead htail
  · exact iff_of_false nofun fun h => absurd hsize (not_lt.mpr h.1)
  · refine iff_of_false nofun ?_
    rintro ⟨-, hhead, htail, -⟩
    rw [hhead, htail, or_self] at hpare
    exact hmarkers hpare
  · exact iff_of_false nofun fun h => hhead h.2.1
  · exact iff_of_false nofun fun h => htail h.2.2.1
  · rw [checkCounts_ok_iff]
    rw [not_not] at hhead htail
    exact ⟨fun h => ⟨not_lt.mp hsize, hhead, htail, h⟩, fun h => h.2.2.2⟩

end Validation

section Sums

/-- Counts that are not negative are added exactly up to `2 ^ 53`. -/
theorem sumDoubles_exact
    (accumulator : LongDouble) {footer : ParsedFooter}
    (hpos : ∀ count ∈ footer.counts, 0 ≤ count)
    (hle : footer.counts.sum ≤ 2 ^ 53) :
    sumDoubles accumulator footer.groupRows = footer.counts.sum := by
  have hsum_nonneg := List.sum_nonneg hpos
  have hexact : footer.groupRows =
      footer.counts.map fun count : ℤ => (count : ℚ) := by
    apply List.map_congr_left
    intro count hcount
    have hcount_le : count ≤ footer.counts.sum :=
      List.single_le_sum hpos count hcount
    apply BinaryFormat.round_intCast (by decide) _ (by decide)
    rw [abs_of_nonneg (hpos count hcount)]
    exact hcount_le.trans hle
  have hprecision := accumulator.precision_le
  have hrange : footer.counts.sum ≤ 2 ^ accumulator.format.precision :=
    hle.trans (pow_le_pow_right₀ (by norm_num) hprecision)
  rw [sumDoubles, hexact, BinaryFormat.sum_intCast
    (accumulator.minExp_le.trans (by decide))
    (lt_of_lt_of_le (by decide) hprecision) hpos hrange]
  apply BinaryFormat.round_intCast (by decide) _ (by decide)
  rw [abs_of_nonneg hsum_nonneg]
  exact hle

end Sums

section Selections

/-- A collect: the columns asked for, their kinds, and the options. All row groups
are read. -/
structure CollectRequest where
  columns : Option (List ℤ)
  columnKinds : List ℤ
  int64Option : Int64Mode
  batchSize : Nat

/-- A file with these leaves and no rows. -/
def schemaFile (leaves : List Leaf) : ParquetFile where
  leaves := leaves
  rowGroups := []
  chunk_length := by simp
  chunk_fits := by simp

/-- The columns of a request, which are checked against the schema alone. -/
def selectColumns
    (leaves : List Leaf) (request : CollectRequest) :
    Except ReadError (List SelectedColumn) := do
  let indexes ← selectIndexes leaves.length request.columns
  let kinds ← selectKinds indexes.length request.columnKinds
  (indexes.zip kinds).mapM fun entry =>
    selectColumn (schemaFile leaves) request.int64Option entry.1 entry.2

/-- `qio_prepare_selection` of all row groups, whatever the counts are. -/
def prepareAll
    (footer : ParsedFooter) (request : CollectRequest) :
    Except ReadError Selection := do
  let selected ← selectColumns footer.leaves request
  let mask ← selectRowGroups footer.rowGroups.length none
  let totalRows ← countRows 0 (mask.zip footer.rowGroups)
  return ⟨selected, mask, totalRows⟩

/-- On a file it is the selection the readers make. -/
theorem prepareSelection_eq_prepareAll
    {file : ParquetFile} {footer : ParsedFooter} (request : CollectRequest)
    (hleaves : footer.leaves = file.leaves)
    (hgroups : footer.rowGroups = file.rowGroups) :
    prepareSelection file request.columns none request.columnKinds
        request.int64Option =
      prepareAll footer request := by
  have hcolumn : selectColumn (schemaFile file.leaves) =
      selectColumn file := by
    funext option index kind
    rfl
  rw [prepareAll, selectColumns, hleaves, hgroups, hcolumn, prepareSelection]
  simp only [bind_assoc]

/-- The columns a request selects can be read. -/
theorem supported_of_selectColumns
    {leaves : List Leaf} {request : CollectRequest} {selected : List SelectedColumn}
    (h : selectColumns leaves request = .ok selected) :
    ∀ column ∈ selected, column.spec.Supported := by
  intro column hcolumn
  simp only [selectColumns, bind_eq_ok_iff] at h
  obtain ⟨indexes, -, kinds, -, hselected⟩ := h
  obtain ⟨entry, -, hentry⟩ := mem_of_mapM_ok hselected column hcolumn
  obtain ⟨leaf, -, -, -, hsupported⟩ := selectColumn_ok hentry
  exact hsupported

end Selections

section Layout

/-- The errors of a collect. The last two are the ones of the loop that lays the row
groups out. -/
inductive CollectFault where
  | read (e : ReadError)
  | groupExceeds (rowGroup : Nat)
  | rowsHeld (expected held : ℤ)

def CollectFault.message : CollectFault → String
  | .read e => e.message
  | .groupExceeds rowGroup =>
      s!"qio: row group {rowGroup} exceeds the expected row count"
  | .rowsHeld expected held =>
      s!"qio: expected {expected} rows but the selected row groups hold {held}"

/-- The first loop of `qio_collect_body` with its checks. -/
def layGroups (rows : ℤ) :
    Nat → List (Nat × RowGroup) → Except CollectFault (List GroupPlan)
  | offset, [] =>
      if (offset : ℤ) ≠ rows then
        .error (.rowsHeld rows offset)
      else
        .ok []
  | offset, (index, group) :: rest =>
      if group.numRows ≤ 0 then
        layGroups rows offset rest
      else if rows < offset + group.numRows then
        .error (.groupExceeds (index + 1))
      else do
        let plans ← layGroups rows (offset + group.numRows.toNat) rest
        return ⟨index, group.numRows.toNat, offset⟩ :: plans

/-- The rows of some selected groups. -/
def heldRows (groups : List (Nat × RowGroup)) : ℤ :=
  (groups.map fun entry => entry.2.numRows).sum

theorem heldRows_cons
    (entry : Nat × RowGroup) (rest : List (Nat × RowGroup)) :
    heldRows (entry :: rest) = entry.2.numRows + heldRows rest := by
  simp [heldRows]

theorem heldRows_nonneg
    {groups : List (Nat × RowGroup)}
    (hpos : ∀ entry ∈ groups, 0 ≤ entry.2.numRows) :
    0 ≤ heldRows groups :=
  List.sum_nonneg (List.forall_mem_map.mpr hpos)

/-- Groups that add up to the expected rows pass the checks of the loop. -/
theorem layGroups_eq
    {rows : ℤ} {groups : List (Nat × RowGroup)} {offset : Nat}
    (hpos : ∀ entry ∈ groups, 0 ≤ entry.2.numRows)
    (hsum : offset + heldRows groups = rows) :
    layGroups rows offset groups = .ok (groupPlans offset groups) := by
  induction groups generalizing offset with
  | nil =>
      have hrows : (offset : ℤ) = rows := by
        simpa [heldRows] using hsum
      simp [layGroups, groupPlans, hrows]
  | cons entry rest ih =>
      obtain ⟨index, group⟩ := entry
      have hrest : ∀ entry ∈ rest, 0 ≤ entry.2.numRows :=
        fun entry hentry => hpos entry (by simp [hentry])
      have hgroup : 0 ≤ group.numRows := hpos (index, group) (by simp)
      have htail := heldRows_nonneg hrest
      rw [heldRows_cons] at hsum
      simp only at hsum
      rw [layGroups, groupPlans]
      by_cases hnone : group.numRows ≤ 0
      · rw [if_pos hnone, if_pos hnone]
        exact ih hrest (by omega)
      · rw [if_neg hnone, if_neg hnone, if_neg (by omega),
          ih hrest (by push_cast; omega)]
        rfl

end Layout

section Counting

theorem countRows_of_nonneg
    {total : ℤ} {entries : List (Bool × RowGroup)} {start : Nat}
    (hpos : ∀ entry ∈ maskedGroups start entries, 0 ≤ entry.2.numRows)
    (hle : total + heldRows (maskedGroups start entries) < 2 ^ 63) :
    countRows total entries =
      .ok (total + heldRows (maskedGroups start entries)) := by
  induction entries generalizing total start with
  | nil =>
      simp [countRows, maskedGroups, heldRows]
  | cons entry entries ih =>
      obtain ⟨selected, group⟩ := entry
      cases selected with
      | false =>
          exact ih hpos hle
      | true =>
          rw [maskedGroups] at hpos hle ⊢
          have hrest : ∀ entry ∈ maskedGroups (start + 1) entries,
              0 ≤ entry.2.numRows :=
            fun entry hentry => hpos entry (by simp [hentry])
          have hgroup : 0 ≤ group.numRows := hpos (start, group) (by simp)
          have htail := heldRows_nonneg hrest
          rw [heldRows_cons] at hle ⊢
          simp only at hle ⊢
          rw [countRows, if_neg (by omega), ih hrest (by omega), add_assoc]

theorem countRows_lt
    {total result : ℤ} {entries : List (Bool × RowGroup)}
    (htotal : total < 2 ^ 63)
    (h : countRows total entries = .ok result) :
    result < 2 ^ 63 := by
  induction entries generalizing total with
  | nil =>
      cases h
      exact htotal
  | cons entry entries ih =>
      obtain ⟨selected, group⟩ := entry
      cases selected with
      | false =>
          exact ih htotal h
      | true =>
          rw [countRows] at h
          split_ifs at h with hbad
          exact ih (by omega) h

theorem countRows_error
    {total : ℤ} {entries : List (Bool × RowGroup)} {e : ReadError}
    (h : countRows total entries = .error e) :
    e = .rowCount := by
  induction entries generalizing total with
  | nil =>
      cases h
  | cons entry entries ih =>
      obtain ⟨selected, group⟩ := entry
      cases selected with
      | false =>
          exact ih h
      | true =>
          rw [countRows] at h
          split_ifs at h with hbad
          · cases h
            rfl
          · exact ih h

/-- A mask of all row groups selects them all. -/
theorem map_snd_maskedGroups
    (groups : List RowGroup) (start : Nat) :
    (maskedGroups start ((List.replicate groups.length true).zip groups)).map
      Prod.snd = groups := by
  induction groups generalizing start with
  | nil =>
      rfl
  | cons group groups ih =>
      rw [List.length_cons, List.replicate_succ, List.zip_cons_cons, maskedGroups,
        List.map_cons, ih]

/-- All row groups of a footer, with their indexes. -/
def ParsedFooter.groups (footer : ParsedFooter) : List (Nat × RowGroup) :=
  maskedGroups 0 ((List.replicate footer.rowGroups.length true).zip footer.rowGroups)

theorem ParsedFooter.heldRows_groups
    (footer : ParsedFooter) :
    heldRows footer.groups = footer.counts.sum := by
  rw [heldRows, counts, groups]
  conv_rhs => rw [← map_snd_maskedGroups footer.rowGroups 0, List.map_map]
  rfl

theorem ParsedFooter.groups_nonneg_iff
    (footer : ParsedFooter) :
    (∀ entry ∈ footer.groups, 0 ≤ entry.2.numRows) ↔
      ∀ count ∈ footer.counts, 0 ≤ count := by
  rw [counts]
  conv_rhs => rw [← map_snd_maskedGroups footer.rowGroups 0, List.map_map]
  rw [List.forall_mem_map]
  rfl

end Counting

section Collects

variable {footer : ParsedFooter} {native : NativeReader} {request : CollectRequest}
  {handle : Handle} {outcome : Except CollectFault ReadResult}

/-- What a collect of all row groups reads. -/
def ParsedFooter.context
    (footer : ParsedFooter) (native : NativeReader) (request : CollectRequest)
    (sel : Selection) : CollectContext :=
  ⟨native, sel, maskedGroups 0 (sel.mask.zip footer.rowGroups), request.batchSize⟩

/-- `qio_collect_body` ends before it lays the row groups out. -/
def EndsEarly (sel : Selection) : Prop :=
  2 ^ 31 - 1 < sel.totalRows ∨ (∃ e, allocateResult sel = .error e) ∨
    sel.totalRows = 0 ∨ sel.columns = []

/-- How a collect of all row groups can end: the selection is refused, or the row
groups do not fit the result, or the rest of `qio_collect_body` runs. -/
inductive CollectAll
    (footer : ParsedFooter) (native : NativeReader) (request : CollectRequest)
    (handle : Handle) : Except CollectFault ReadResult → Prop where
  | refused {e : ReadError}
      (hsel : prepareAll footer request = .error e) :
      CollectAll footer native request handle (.error (.read e))
  | unfit {sel : Selection} {fault : CollectFault}
      (hsel : prepareAll footer request = .ok sel)
      (hearly : ¬ EndsEarly sel)
      (hlay : layGroups sel.totalRows 0
        (footer.context native request sel).groups = .error fault) :
      CollectAll footer native request handle (.error fault)
  | body {sel : Selection} {run : List Action} {result : Except ReadError ReadResult}
      (hsel : prepareAll footer request = .ok sel)
      (hlay : EndsEarly sel ∨ layGroups sel.totalRows 0
        (footer.context native request sel).groups =
          .ok (footer.context native request sel).plans)
      (hrun : CollectRun (footer.context native request sel) handle run result) :
      CollectAll footer native request handle (result.mapError .read)

/-- The ends of a collect that the row counts do not account for: the rows `dim()`
reports are returned, or they are more than an R vector holds, or a chunk raises. -/
inductive ReadsReported
    (footer : ParsedFooter) (native : NativeReader) (request : CollectRequest) :
    Except CollectFault ReadResult → Prop where
  | returned {r : ReadResult}
      (hrows : (r.frame.rowCount : ℚ) = footer.dim.1)
      (hcolumns : ∀ column ∈ r.frame.columns,
        column.cells.length = r.frame.rowCount) :
      ReadsReported footer native request (.ok r)
  | tooMany
      (hrows : 2 ^ 31 - 1 < footer.dim.1) :
      ReadsReported footer native request (.error (.read .tooManyRows))
  | content {sel : Selection} {targets : List TargetColumn} {e : ReadError}
      {plan : GroupPlan} {target : TargetColumn}
      (hsel : prepareAll footer request = .ok sel)
      (halloc : allocateResult sel = .ok targets)
      (hplan : plan ∈ (footer.context native request sel).plans)
      (htarget : target ∈ targets)
      (hraises : (footer.context native request sel).ChunkRaises target plan e) :
      ReadsReported footer native request (.error (.read e))

/-- The frame of a collect that returns has the rows that were counted. -/
theorem CollectRun.frame_eq
    {ctx : CollectContext} {run : List Action} {r : ReadResult}
    (h : CollectRun ctx handle run (.ok r)) :
    ∃ targets heap,
      r.frame = heapFrame targets ctx.selection.totalRows.toNat heap := by
  have hend : ∀ {targets tasks main heap},
      .ok r = collectEnd ctx.native targets tasks
          ctx.selection.totalRows.toNat main heap →
        r.frame = heapFrame targets ctx.selection.totalRows.toNat heap := by
    intro targets tasks main heap hresult
    rw [collectEnd, collectEnd_ok hresult.symm] at hresult
    cases hresult
    rfl
  generalize hresult : Except.ok r = result at h
  cases h with
  | tooManyRows _ | unsupported _ _ =>
      cases hresult
  | empty _ _ _ =>
      cases hresult
      exact ⟨_, _, rfl⟩
  | read _ _ _ _ hrun =>
      cases hrun with
      | inlineFailed _ _ | inlineRaised _ _ _ | parallelRaised _ _ _ =>
          cases hresult
      | inlineDone _ _ _ | parallelDone _ _ _ =>
          exact ⟨_, _, hend hresult⟩

theorem prepareAll_eq
    {selected : List SelectedColumn}
    (hcolumns : selectColumns footer.leaves request = .ok selected) :
    prepareAll footer request =
      countRows 0 ((List.replicate footer.rowGroups.length true).zip
          footer.rowGroups) >>= fun totalRows =>
        .ok ⟨selected, List.replicate footer.rowGroups.length true, totalRows⟩ := by
  rw [prepareAll, hcolumns]
  rfl

/-- Counts that are not negative and have a sum in range make a selection. -/
theorem prepareAll_of_nonneg
    {selected : List SelectedColumn}
    (hcolumns : selectColumns footer.leaves request = .ok selected)
    (hpos : ∀ count ∈ footer.counts, 0 ≤ count)
    (hlt : footer.counts.sum < 2 ^ 63) :
    prepareAll footer request =
      .ok ⟨selected, List.replicate footer.rowGroups.length true,
        footer.counts.sum⟩ := by
  have hheld := footer.heldRows_groups
  have hcount : countRows 0 ((List.replicate footer.rowGroups.length true).zip
      footer.rowGroups) = .ok (0 + heldRows footer.groups) :=
    countRows_of_nonneg (footer.groups_nonneg_iff.mpr hpos)
      (by rw [zero_add]; exact lt_of_eq_of_lt hheld hlt)
  rw [prepareAll_eq hcolumns, hcount, ok_bind, zero_add, hheld]

/-- With such counts that add up to the rows reported, only the content of a chunk or
the limit of R stops a collect. -/
theorem CollectAll.readsReported
    {selected : List SelectedColumn}
    (hpos : ∀ count ∈ footer.counts, 0 ≤ count)
    (hlt : footer.counts.sum < 2 ^ 63)
    (hsum : (footer.counts.sum : ℚ) = footer.dim.1)
    (hcolumns : selectColumns footer.leaves request = .ok selected)
    (h : CollectAll footer native request handle outcome) :
    ReadsReported footer native request outcome := by
  have hprepared := prepareAll_of_nonneg hcolumns hpos hlt
  have hnonneg : 0 ≤ footer.counts.sum := List.sum_nonneg hpos
  cases h with
  | refused hsel =>
      rw [hprepared] at hsel
      cases hsel
  | unfit hsel _ hlay =>
      rw [hprepared] at hsel
      cases hsel
      have hlaid : layGroups footer.counts.sum 0 footer.groups =
          .ok (groupPlans 0 footer.groups) :=
        layGroups_eq (footer.groups_nonneg_iff.mpr hpos)
          (by simpa using footer.heldRows_groups)
      cases hlaid.symm.trans hlay
  | @body sel run result hsel _ hrun =>
      have hsel' := hsel
      rw [hprepared] at hsel'
      cases hsel'
      cases result with
      | ok r =>
          obtain ⟨targets', heap, hframe⟩ := CollectRun.frame_eq hrun
          have hrows : r.frame.rowCount = footer.counts.sum.toNat := by
            rw [hframe]
            rfl
          refine .returned ?_ ?_
          · rw [hrows, ← hsum, ← Int.cast_natCast, Int.toNat_of_nonneg hnonneg]
          · rw [hframe]
            simp [heapFrame]
      | error e =>
          generalize hresult : Except.error e = result at hrun
          cases hrun with
          | tooManyRows hrows =>
              cases hresult
              refine .tooMany ?_
              rw [← hsum]
              exact_mod_cast hrows
          | unsupported _ hrefused =>
              obtain ⟨targets, halloc⟩ : ∃ targets, allocateResult
                  ⟨selected, List.replicate footer.rowGroups.length true,
                    footer.counts.sum⟩ = .ok targets :=
                exists_allocateResult (supported_of_selectColumns hcolumns)
              cases halloc.symm.trans hrefused
          | empty _ _ _ =>
              cases hresult
          | read _ halloc _ _ hrun =>
              cases hresult
              obtain ⟨plan, hplan, target, htarget, hraises⟩ := hrun.error_raised
              exact .content hsel halloc hplan htarget hraises

end Collects

section Trust

variable {accumulator : LongDouble} {openParquet : Bytes → Except String ParsedFooter}
  {path : String} {contents : Bytes} {footer : ParsedFooter}

/-- The row counts can be trusted: none is negative, they add up exactly to the
number `dim()` reports, and no collect of all row groups fails on their account. A
request whose columns the schema refuses does not come to the counts. -/
structure CountsTrusted (footer : ParsedFooter) : Prop where
  nonneg : ∀ count ∈ footer.counts, 0 ≤ count
  sum_eq : (footer.counts.sum : ℚ) = footer.dim.1
  collects : ∀ native request handle selected outcome,
    selectColumns footer.leaves request = .ok selected →
      CollectAll footer native request handle outcome →
      ReadsReported footer native request outcome

/-- What validation leaves to be asked of the counts: none is negative, a file
without row groups declares no rows, and a sum that doubles may round is in the
64-bit range and is the double of the declared count. -/
structure CountsHold (footer : ParsedFooter) : Prop where
  nonneg : ∀ count ∈ footer.counts, 0 ≤ count
  declared : footer.rowGroups = [] → footer.numRows = 0
  large : 2 ^ 53 < footer.counts.sum →
    footer.counts.sum < 2 ^ 63 ∧
      (footer.counts.sum : ℚ) = binary64.round footer.numRows

/-- A request for no columns is always accepted by the schema. -/
def noColumns : CollectRequest :=
  ⟨some [], [], .double, 65536⟩

theorem selectColumns_noColumns
    (leaves : List Leaf) :
    selectColumns leaves noColumns = .ok [] :=
  rfl

/-- Trusted counts have a sum that `qio_prepare_selection` can count to. -/
theorem CountsTrusted.sum_lt
    (h : CountsTrusted footer) :
    footer.counts.sum < 2 ^ 63 := by
  have hcolumns := selectColumns_noColumns footer.leaves
  cases hcount : countRows 0 ((List.replicate footer.rowGroups.length true).zip
      footer.rowGroups) with
  | ok total =>
      have htotal := (countRows_ok 0 hcount).2
      rw [zero_add] at htotal
      have hlt := countRows_lt (by norm_num) hcount
      rw [htotal] at hlt
      exact lt_of_eq_of_lt footer.heldRows_groups.symm hlt
  | error e =>
      -- The refusal is an end of a collect that nothing but the counts explains.
      obtain rfl := countRows_error hcount
      have hrefused : prepareAll footer noColumns = .error .rowCount := by
        rw [prepareAll_eq hcolumns, hcount]
        rfl
      cases h.collects ⟨fun _ _ _ => .error "", fun _ _ => none⟩ noColumns
        ⟨1, false, false, 0⟩ [] _ hcolumns (.refused hrefused) with
      | content hsel _ _ _ _ =>
          cases hrefused.symm.trans hsel

/-- A validated row count can be trusted exactly when no row group has a negative
count, a file without row groups declares no rows, and a sum above `2 ^ 53` stays
below `2 ^ 63` and is the double of the declared count. Then `collect()` of all row
groups returns the rows `dim()` reports, or stops at the limit of R's vectors or at
the content of a chunk. -/
theorem validated_counts_trusted_iff
    (hopen : openParquet contents = .ok footer)
    (hvalid :
      validateFile accumulator openParquet path (.file contents) = .ok true) :
    CountsTrusted footer ↔ CountsHold footer := by
  obtain ⟨-, -, -, hsums⟩ := (validateFile_ok_iff hopen).mp hvalid
  constructor
  · intro h
    refine ⟨h.nonneg, ?_, fun _ => ⟨h.sum_lt, h.sum_eq⟩⟩
    intro hnil
    by_contra hne
    have hzero : footer.dim.1 = 0 := by
      rw [← h.sum_eq, ParsedFooter.counts, hnil]
      rfl
    exact BinaryFormat.round_intCast_ne_zero (by decide) (by decide) hne hzero
  · intro h
    have hsum : footer.counts.sum < 2 ^ 63 ∧
        (footer.counts.sum : ℚ) = footer.dim.1 := by
      by_cases hlarge : 2 ^ 53 < footer.counts.sum
      · exact h.large hlarge
      · rw [not_lt] at hlarge
        refine ⟨by omega, ?_⟩
        rcases hsums with hnil | hsum
        · rw [ParsedFooter.dim, h.declared hnil, ParsedFooter.counts, hnil]
          exact (BinaryFormat.round_intCast (z := 0) (by decide) (by norm_num)
            (by decide)).symm
        · rw [← hsum, sumDoubles_exact accumulator h.nonneg hlarge]
    exact ⟨h.nonneg, hsum.2, fun _ _ _ _ _ hcolumns hcollect =>
      hcollect.readsReported h.nonneg hsum.1 hsum.2 hcolumns⟩

/-- A `long double` that is a double. -/
def plainAccumulator : LongDouble :=
  ⟨binary64, le_rfl, le_rfl⟩

/-- A value of the compact Thrift protocol, of the kinds a footer is made of. -/
inductive Thrift where
  | int (value : ℤ)
  | binary (bytes : Bytes)
  | list (items : List Thrift)
  | record (fields : List (Nat × Thrift))

def readVarint : Bytes → Option (Nat × Bytes)
  | [] => none
  | byte :: rest =>
      if byte < 128 then
        some (byte.toNat, rest)
      else do
        let (high, rest) ← readVarint rest
        return (byte.toNat - 128 + 128 * high, rest)

/-- Values of one type, one after another. -/
def readItems (read : Bytes → Option (Thrift × Bytes)) :
    Nat → Bytes → Option (List Thrift × Bytes)
  | 0, bytes => some ([], bytes)
  | count + 1, bytes => do
      let (item, rest) ← read bytes
      let (items, rest) ← readItems read count rest
      return (item :: items, rest)

/-- The fields after the one with number `last`, up to the stop byte. -/
def readFields (read : Nat → Bytes → Option (Thrift × Bytes)) :
    Nat → Nat → Bytes → Option (List (Nat × Thrift) × Bytes)
  | fuel + 1, last, head :: rest =>
      if head = 0 then
        some ([], rest)
      else do
        let id := last + head.toNat / 16
        let (value, rest) ← read (head.toNat % 16) rest
        let (fields, rest) ← readFields read fuel id rest
        return ((id, value) :: fields, rest)
  | _, _, _ => none

/-- A value of the given type; lists have at most 14 elements. -/
def readValue : Nat → Nat → Bytes → Option (Thrift × Bytes)
  | 0, _, _ => none
  | fuel + 1, type, bytes =>
      if type = 5 ∨ type = 6 then do
        let (n, rest) ← readVarint bytes
        return (.int (if n % 2 = 0 then n / 2 else -((n + 1) / 2)), rest)
      else if type = 8 then do
        let (n, rest) ← readVarint bytes
        if rest.length < n then none else return (.binary (rest.take n), rest.drop n)
      else if type = 9 then do
        let head ← bytes.head?
        if 240 ≤ head then none else
          let (items, rest) ← readItems (readValue fuel (head.toNat % 16))
            (head.toNat / 16) bytes.tail
          return (.list items, rest)
      else if type = 12 then do
        let (fields, rest) ← readFields (readValue fuel) bytes.length 0 bytes
        return (.record fields, rest)
      else
        none

def Thrift.field (id : Nat) : Thrift → Option Thrift
  | .record fields => fields.lookup id
  | _ => none

/-- A number of rows. -/
def rowsOfField (data : Thrift) : Option ℤ :=
  match data.field 3 with
  | some (.int rows) => some rows
  | _ => none

/-- A schema element of a flat INT32 column. -/
def leafOf (element : Thrift) : Option Leaf :=
  match element.field 1, element.field 3, element.field 4 with
  | some (.int 1), some (.int 0), some (.binary name) =>
      some (plainLeaf (String.ofList (name.map fun b => Char.ofNat b.toNat)))
  | _, _, _ => none

/-- The declared rows, the rows of the row groups and the leaves of a file. -/
def footerCounts (contents : Bytes) : Option (ℤ × List ℤ × List Leaf) := do
  let (_, footer) ← (Write.locateFooter contents).toOption
  let (data, _) ← readValue 8 12 footer
  match data.field 2, data.field 4 with
  | some (.list elements), some (.list groups) =>
      return (← rowsOfField data, ← groups.mapM rowsOfField, ← elements.tail.mapM leafOf)
  | _, _ => none

/-- Opens files of INT32 columns. -/
def openFooter (contents : Bytes) : Except String ParsedFooter :=
  match footerCounts contents with
  | none => .error "Thrift decode error"
  | some (numRows, counts, leaves) =>
      if h : IsInt64 numRows ∧ ∀ count ∈ counts, IsInt64 count then
        .ok ⟨numRows, counts.map fun count => ⟨count, fun _ => []⟩, leaves, h.1,
          List.forall_mem_map.mpr h.2⟩
      else
        .error "Thrift decode error"

/-- A row group of one chunk. -/
def groupBytes (rows : UInt8) : Bytes :=
  [0x19, 0x1c, 0x26, 8, 0x1c, 0x15, 2, 0x19, 0x15, 0, 0x19, 0x18, 1, 0x78, 0x15, 0,
    0x16, 2 * rows, 0x16, 40, 0x16, 40, 0x26, 8, 0, 0, 0x16, 40, 0x16, 2 * rows, 0]

/-- A file that declares five rows of one INT32 column. -/
def fiveRowFile (groups : List UInt8) : Bytes :=
  let footer := [0x15, 2, 0x19, 0x2c, 0x48, 1, 0x6d, 0x15, 2, 0, 0x15, 2, 0x25, 0, 0x18,
      1, 0x78, 0, 0x16, 10, 0x19, UInt8.ofNat (16 * groups.length + 12)] ++
    groups.flatMap groupBytes ++ [0]
  Write.magic ++ footer ++ Write.lengthBytes footer.length ++ Write.magic

/-- The footer of five rows with these row groups. -/
def fiveRows (counts : List ℤ) (h : ∀ count ∈ counts, IsInt64 count) : ParsedFooter :=
  ⟨5, counts.map fun count => ⟨count, fun _ => []⟩, [plainLeaf "x"], by decide,
    List.forall_mem_map.mpr h⟩

/-- Two and three rows. -/
def heldFooter : ParsedFooter :=
  fiveRows [2, 3] (by decide)

/-- There is no row group. -/
def barrenFooter : ParsedFooter :=
  fiveRows [] (by decide)

theorem openFooter_fiveRows
    {groups : List UInt8} {counts : List ℤ}
    (hparse : footerCounts (fiveRowFile groups) = some (5, counts, [plainLeaf "x"]))
    (h : ∀ count ∈ counts, IsInt64 count) :
    openFooter (fiveRowFile groups) = .ok (fiveRows counts h) := by
  rw [openFooter, hparse]
  exact dif_pos ⟨by decide, h⟩

theorem dim_fiveRows
    (counts : List ℤ)
    (h : ∀ count ∈ counts, IsInt64 count) :
    (fiveRows counts h).dim.1 = 5 :=
  BinaryFormat.round_intCast (z := 5) (by decide) (by norm_num [binary64]) (by decide)

/-- Five declared rows in two row groups are validated, and can be trusted. -/
theorem validated_counts_trusted_iff_held :
    openFooter (fiveRowFile [2, 3]) = .ok heldFooter ∧
      validateFile plainAccumulator openFooter "x.parquet"
        (.file (fiveRowFile [2, 3])) = .ok true ∧
      CountsTrusted heldFooter := by
  have hopen : openFooter (fiveRowFile [2, 3]) = .ok heldFooter :=
    openFooter_fiveRows (by decide +kernel) (by decide)
  have hcounts : heldFooter.counts = [2, 3] := rfl
  have hpos : ∀ count ∈ heldFooter.counts, 0 ≤ count := by
    simp [hcounts]
  have hvalid : validateFile plainAccumulator openFooter "x.parquet"
      (.file (fiveRowFile [2, 3])) = .ok true := by
    refine (validateFile_ok_iff hopen).mpr
      ⟨by decide, by decide, by decide, Or.inr ?_⟩
    rw [sumDoubles_exact plainAccumulator hpos (by simp [hcounts]), hcounts]
    exact (dim_fiveRows _ _).symm
  refine ⟨hopen, hvalid, (validated_counts_trusted_iff hopen hvalid).mpr ⟨hpos, ?_, ?_⟩⟩
  · intro hnil
    cases hnil
  · simp [hcounts]

/-- A footer that declares five rows and has no row group is validated. `dim()`
reports five rows, and `collect()` returns none. -/
theorem barren_footer_validated :
    openFooter (fiveRowFile []) = .ok barrenFooter ∧
      validateFile plainAccumulator openFooter "x.parquet" (.file (fiveRowFile [])) =
        .ok true ∧
      barrenFooter.dim.1 = 5 ∧
      (∃ r, CollectAll barrenFooter (pairNative fun _ => true)
          ⟨none, [0], .double, 65536⟩ serialHandle (.ok r) ∧
        r.frame.rowCount = 0) ∧
      ¬ CountsTrusted barrenFooter := by
  have hopen : openFooter (fiveRowFile []) = .ok barrenFooter :=
    openFooter_fiveRows (by decide +kernel) (by decide)
  refine ⟨hopen, ?_, dim_fiveRows _ _, ?_, ?_⟩
  · exact (validateFile_ok_iff hopen).mpr
      ⟨by decide, by decide, by decide, Or.inl rfl⟩
  · exact ⟨_, .body rfl (Or.inl (Or.inr (Or.inr (Or.inl rfl))))
      (.empty (by decide) rfl (Or.inl rfl)), rfl⟩
  · intro h
    have hsum := h.sum_eq
    rw [barrenFooter, dim_fiveRows] at hsum
    norm_num [fiveRows, ParsedFooter.counts] at hsum

end Trust

end Inspect
end QioParquet
