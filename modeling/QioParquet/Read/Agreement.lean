import QioParquet.Read.CollectLaws
import QioParquet.Read.Walk
import Mathlib.Tactic

/-!
# collect() and walk_batches() agree

Both reads are compared with the elements of the rows of each selected column,
in file order. A collect that returns has exactly these elements in its
columns, and a walk that returns has them in its batches, one after the other;
the warning flags of both are those the rows call for.
-/

namespace QioParquet
namespace Read

open Lib

section Warnings

/-- The two warnings a read can end with. -/
inductive Warning where
  | int32Sentinel
  | int64Coerced
deriving DecidableEq

def Flags.warns (flags : Flags) : Warning → Bool
  | .int32Sentinel => flags.int32Sentinel
  | .int64Coerced => flags.int64Coerced

@[simp] theorem Flags.warns_none (w : Warning) :
    Flags.none.warns w = false := by
  cases w <;> rfl

@[simp] theorem Flags.warns_or (a b : Flags) (w : Warning) :
    (a.or b).warns w = (a.warns w || b.warns w) := by
  cases w <;> rfl

theorem Flags.ext_warns
    {a b : Flags}
    (h : ∀ w, a.warns w = true ↔ b.warns w = true) :
    a = b := by
  have hsentinel := Bool.eq_iff_iff.mpr (h .int32Sentinel)
  have hcoerced := Bool.eq_iff_iff.mpr (h .int64Coerced)
  cases a
  cases b
  simp_all [Flags.warns]

/-- The rows of several chunks call for a warning when one of them does. -/
theorem warns_rowFlags_flatMap {α : Type}
    (c : ColumnSpec) (chunks : List α) (rows : α → List Row) (w : Warning) :
    (rowFlags c (rowValues (chunks.flatMap rows))).warns w = true ↔
      ∃ chunk ∈ chunks, (rowFlags c (rowValues (rows chunk))).warns w =
        true := by
  induction chunks with
  | nil =>
      simp [rowValues]
  | cons chunk chunks ih =>
      rw [List.flatMap_cons, rowValues_append, rowFlags_append,
        Flags.warns_or, Bool.or_eq_true, ih]
      simp

end Warnings

section Tasks

variable {native : NativeReader} {task : Task} {r : ColumnReader}
  {rows : List Row}

theorem scatterDenseColumn_numeric
    {c : ColumnSpec}
    (hnumeric : needsMainThread c.type c.kind = false)
    (b : DenseBatch) (flags : Flags) :
    scatterDenseColumn c b flags = scatterNumericRaw c b flags := by
  simp only [needsMainThread, Bool.or_eq_false_iff, beq_eq_false_iff_ne]
    at hnumeric
  obtain ⟨⟨⟨hbinary, huuid⟩, htext⟩, -⟩ := hnumeric
  rw [scatterDenseColumn, if_neg huuid, if_neg hbinary, if_neg htext]

/-- A task column is one the selection accepts. -/
theorem supported_of_numeric
    {c : ColumnSpec}
    (hnumeric : needsMainThread c.type c.kind = false) :
    c.Supported := by
  intro hfixed
  simp [needsMainThread, hfixed] at hnumeric

/-- What the batch loop of a task holds when it has not failed. -/
structure TaskInvariant
    (task : Task) (rows : List Row) (position : Nat)
    (outcome : TaskOutcome) : Prop where
  cells_eq :
    nativeCells task.spec (rows.take position) = some outcome.cells
  flags_eq :
    outcome.flags = rowFlags task.spec (rowValues (rows.take position))

theorem taskLoop_ok
    {width : Nat}
    (hwidth : 0 < width)
    (hnumeric : needsMainThread task.spec.type task.spec.kind = false)
    (hfits : ∀ row ∈ rows, row.Fits task.spec)
    (hr : r.Faithful task.spec rows)
    (start remaining : Nat) :
    ∀ outcome : TaskOutcome,
      TaskInvariant task rows start outcome →
      (taskLoop task r (slices width start remaining)
        outcome).failure = none →
      TaskInvariant task rows (start + remaining)
        (taskLoop task r (slices width start remaining) outcome) := by
  refine slices_induction hwidth
    (motive := fun start remaining => ∀ outcome : TaskOutcome,
      TaskInvariant task rows start outcome →
      (taskLoop task r (slices width start remaining)
        outcome).failure = none →
      TaskInvariant task rows (start + remaining)
        (taskLoop task r (slices width start remaining) outcome))
    ?_ ?_ start remaining
  · intro start outcome hinv _
    simpa [taskLoop] using hinv
  · intro start remaining hpos ih outcome hinv hok
    rw [slices_pos hwidth hpos, taskLoop] at hok ⊢
    split at hok
    · cases hok
    · rename_i b hread
      split_ifs at hok with hcount
      rw [not_not] at hcount
      split at hok
      · cases hok
      · rename_i cells flags hscatter
        split_ifs at hok with hcheck
        have hslice : ∀ row ∈ (rows.drop start).take (min remaining width),
            row.Fits task.spec := fun row hrow =>
          hfits row (List.drop_subset _ _ (List.take_subset _ _ hrow))
        rw [← scatterDenseColumn_numeric hnumeric] at hscatter
        obtain ⟨hcells, hflags⟩ := scatterDenseColumn_ok
          (supported_of_numeric hnumeric) hslice
          (hr start _ b hread hcount) hscatter
        have hsum : start + min remaining width +
            (remaining - min remaining width) = start + remaining := by
          omega
        rw [if_neg (not_not.mpr hcount), if_pos hcheck, ← hsum]
        refine ih _ ⟨?_, ?_⟩ hok
        · rw [take_add_slice]
          exact nativeCells_append hinv.cells_eq hcells
        · rw [take_add_slice, rowValues_append, rowFlags_append,
            ← hinv.flags_eq]
          exact hflags

/-- A task that does not fail holds the elements of its chunk's rows. -/
theorem columnTaskRun_ok
    (task : Task)
    (hnumeric : needsMainThread task.spec.type task.spec.kind = false)
    (hfits : ∀ row ∈ rows, row.Fits task.spec)
    (hlength : rows.length = task.rows)
    (hfaithful : ∀ r,
      native.getColumn 0 task.rowGroup task.fileColumn = .ok r →
      r.Faithful task.spec rows)
    (hok : (columnTaskRun native task).failure = none) :
    nativeCells task.spec rows = some (columnTaskRun native task).cells ∧
      (columnTaskRun native task).flags =
        rowFlags task.spec (rowValues rows) := by
  unfold columnTaskRun at hok ⊢
  split at hok
  · cases hok
  · rename_i r hget
    rcases Nat.eq_zero_or_pos task.rows with hzero | hpos
    · have hnil : rows = [] := List.length_eq_zero_iff.mp (by omega)
      simp [hnil, hzero, taskLoop, nativeCells, rowValues]
    · have hwidth : 0 < min task.rows taskBatch := by
        simp [taskBatch, hpos]
      have hinit : TaskInvariant task rows 0 ⟨[], Flags.none, none⟩ := by
        constructor <;> simp [nativeCells, rowValues]
      have hend := taskLoop_ok hwidth hnumeric hfits (hfaithful r hget) 0
        task.rows _ hinit hok
      have htake : rows.take (0 + task.rows) = rows := by
        rw [Nat.zero_add, ← hlength, List.take_length]
      rw [← htake]
      exact ⟨hend.cells_eq, hend.flags_eq⟩

end Tasks

section Collected

variable {file : ParquetFile} {ctx : CollectContext} {handle : Handle}
  {targets : List TargetColumn} {run : List Action}

/-- The elements of the rows of a selected column. -/
def targetCells (target : TargetColumn) (rows : List Row) : List RCell :=
  (nativeCells target.column.spec rows).getD []

theorem targetCells_of_native
    {target : TargetColumn} {rows : List Row} {cells : List RCell}
    (h : nativeCells target.column.spec rows = some cells) :
    targetCells target rows = cells := by
  rw [targetCells, h]
  rfl

theorem Stores.unique
    {job : ChunkJob} {blocks : List Block} {cells cells' : List RCell}
    (h : Stores job blocks cells)
    (h' : Stores job blocks cells')
    (hlen : cells.length = cells'.length) :
    cells = cells' := by
  let dst := List.replicate (job.offset + job.rows) RCell.unset
  have hdst : job.offset ≤ dst.length := by simp [dst]
  have heq : overwrite dst job.offset cells =
      overwrite dst job.offset cells' := by
    rw [← h.apply_eq dst (by simp [dst]), ← h'.apply_eq dst (by simp [dst])]
  rw [← block_overwrite dst job.offset cells hdst, heq, hlen,
    block_overwrite dst job.offset cells' hdst]

theorem target_column_mem
    {target : TargetColumn}
    (halloc : allocateResult ctx.selection = .ok targets)
    (htarget : target ∈ targets) :
    target.column ∈ ctx.selection.columns := by
  rw [← (allocateResult_ok halloc).2.1]
  exact List.mem_map_of_mem htarget

theorem selected_getElem?
    {target : TargetColumn}
    (halloc : allocateResult ctx.selection = .ok targets)
    (htarget : target ∈ targets) :
    ctx.selection.columns[target.index]? = some target.column := by
  rw [← (allocateResult_ok halloc).2.1, List.getElem?_map,
    target_getElem? halloc htarget]
  rfl

/-- A job of the main-thread pass holds the rows of its chunk. -/
theorem job_holds
    {target : TargetColumn} {index : Nat} {group : RowGroup} (offset : Nat)
    (hctx : ctx.Reads file)
    (halloc : allocateResult ctx.selection = .ok targets)
    (htarget : target ∈ targets)
    (hgroup : (index, group) ∈ ctx.groups) :
    (target.job ⟨index, group.numRows.toNat, offset⟩).Holds
      (group.chunk target.column.fileColumn) := by
  rw [hctx.groups_eq] at hgroup
  obtain ⟨hlen, hfits⟩ := hctx.valid.chunk hgroup
    (target_column_mem halloc htarget)
  exact ⟨hctx.supported halloc target htarget, hfits, hlen⟩

/-- What a chunk was read as: the elements of its rows, and their flags. -/
theorem task_native
    {target : TargetColumn} {index : Nat} {group : RowGroup} {offset : Nat}
    (hctx : ctx.Reads file)
    (hdeliver : ColumnsDeliver ctx)
    (halloc : allocateResult ctx.selection = .ok targets)
    (htarget : target ∈ targets)
    (hnumeric : target.onMain = false)
    (hgroup : (index, group) ∈ ctx.groups)
    (hok : (columnTaskRun ctx.native (target.task
      ⟨index, group.numRows.toNat, offset⟩)).failure = none) :
    nativeCells target.column.spec (group.chunk target.column.fileColumn) =
        some (columnTaskRun ctx.native (target.task
          ⟨index, group.numRows.toNat, offset⟩)).cells ∧
      (columnTaskRun ctx.native (target.task
          ⟨index, group.numRows.toNat, offset⟩)).flags =
        rowFlags target.column.spec
          (rowValues (group.chunk target.column.fileColumn)) := by
  have hholds := job_holds offset hctx halloc htarget hgroup
  exact columnTaskRun_ok (target.task _) hnumeric hholds.fits hholds.length_eq
    (fun r hget => (hdeliver _ hgroup _
      (target_column_mem halloc htarget) 0 r hget).1) hok

theorem main_native
    {target : TargetColumn} {index : Nat} {group : RowGroup} {offset : Nat}
    {flags flags' : Flags} {blocks : List Block}
    (hctx : ctx.Reads file)
    (hdeliver : ColumnsDeliver ctx)
    (halloc : allocateResult ctx.selection = .ok targets)
    (htarget : target ∈ targets)
    (hgroup : (index, group) ∈ ctx.groups)
    (hread : collectMainChunk ctx.native
        (target.job ⟨index, group.numRows.toNat, offset⟩) ctx.chunk flags =
      .ok (blocks, flags')) :
    ∃ cells,
      nativeCells target.column.spec
          (group.chunk target.column.fileColumn) = some cells ∧
        Stores (target.job ⟨index, group.numRows.toNat, offset⟩) blocks
          cells ∧
        flags' = flags.or (rowFlags target.column.spec
          (rowValues (group.chunk target.column.fileColumn))) :=
  collectMainChunk_ok (chunk_pos ctx)
    (job_holds offset hctx halloc htarget hgroup)
    (fun attempt r hget => hdeliver _ hgroup _
      (target_column_mem halloc htarget) attempt r hget) hread

theorem chunkCells_native
    {target : TargetColumn} {index : Nat} {group : RowGroup} {offset : Nat}
    {cells : List RCell}
    (hctx : ctx.Reads file)
    (hdeliver : ColumnsDeliver ctx)
    (halloc : allocateResult ctx.selection = .ok targets)
    (hok : NoTaskFails ctx)
    (htarget : target ∈ targets)
    (hgroup : (index, group) ∈ ctx.groups)
    (hplan : ⟨index, group.numRows.toNat, offset⟩ ∈ ctx.plans)
    (hcells : ChunkCells ctx target ⟨index, group.numRows.toNat, offset⟩
      cells)
    (hlen : cells.length = group.numRows.toNat) :
    nativeCells target.column.spec (group.chunk target.column.fileColumn) =
      some cells := by
  unfold ChunkCells at hcells
  split_ifs at hcells with honMain
  · obtain ⟨flags, blocks, flags', hread, hstores⟩ := hcells
    obtain ⟨found, hfound, hstores', -⟩ :=
      main_native hctx hdeliver halloc htarget hgroup hread
    have hlen' := length_nativeCells hfound
    have hrows := (job_holds offset hctx halloc htarget
      hgroup).length_eq
    rw [hstores.unique hstores' (by rw [hlen, hlen', hrows]; rfl), hfound]
  · rw [Bool.not_eq_true] at honMain
    have htask : target.task ⟨index, group.numRows.toNat, offset⟩ ∈
        ctx.tasks targets :=
      mem_numericTasks.mpr ⟨_, hplan, target, htarget, honMain, rfl⟩
    rw [hcells]
    exact (task_native hctx hdeliver halloc htarget honMain hgroup
      (hok targets halloc _ htask)).1

/-- A heap that holds the elements of every chunk of a column holds the
elements of all its rows. -/
theorem nativeCells_of_placed
    {c : ColumnSpec} (chunk : RowGroup → List Row) {heap : Heap}
    {column : Nat} (groups : List (Nat × RowGroup)) (offset : Nat)
    (hlength : ∀ entry ∈ groups,
      (chunk entry.2).length = entry.2.numRows.toNat)
    (hplaced : ∀ before entry after, groups = before ++ entry :: after →
      0 < entry.2.numRows →
      ∃ cells, nativeCells c (chunk entry.2) = some cells ∧
        ∀ k cell, cells[k]? = some cell →
          heap (column, offset + rowsOf before + k) = cell) :
    nativeCells c (groups.flatMap fun entry => chunk entry.2) =
      some ((List.range' offset (rowsOf groups)).map fun row =>
        heap (column, row)) := by
  induction groups generalizing offset with
  | nil =>
      simp [nativeCells, rowValues, rowsOf]
  | cons entry rest ih =>
      have hrest := ih (offset + entry.2.numRows.toNat)
        (fun entry hentry => hlength entry (by simp [hentry]))
        (fun before entry' after hsplit hrows => by
          have h := hplaced (entry :: before) entry' after
            (by rw [hsplit, List.cons_append]) hrows
          rw [rowsOf_cons, ← Nat.add_assoc] at h
          exact h)
      have hentry : nativeCells c (chunk entry.2) =
          some ((List.range' offset entry.2.numRows.toNat).map fun row =>
            heap (column, row)) := by
        have hlen := hlength entry (by simp)
        rcases le_or_gt entry.2.numRows 0 with hempty | hrows
        · have hzero : entry.2.numRows.toNat = 0 := by omega
          have hnil : chunk entry.2 = [] :=
            List.length_eq_zero_iff.mp (by omega)
          simp [hnil, hzero, nativeCells, rowValues]
        · obtain ⟨cells, hcells, hput⟩ := hplaced [] entry rest rfl hrows
          have hlen' := length_nativeCells hcells
          rw [hcells]
          congr 1
          apply List.ext_getElem (by simp [hlen', hlen])
          intro k hk _
          rw [List.getElem_map, List.getElem_range', Nat.one_mul]
          exact (hput k _ (List.getElem?_eq_getElem hk)).symm
      rw [List.flatMap_cons, rowsOf_cons, ← List.range'_append_1,
        List.map_append]
      exact nativeCells_append hentry hrest

/-- A collect that returns holds, in each column, the elements of all rows of
the column. -/
theorem CollectRun.columns_native
    {r : ReadResult}
    (hctx : ctx.Reads file)
    (hdeliver : ColumnsDeliver ctx)
    (h : CollectRun ctx handle run (.ok r)) :
    ∃ targets, allocateResult ctx.selection = .ok targets ∧
      (∀ target ∈ targets, (nativeCells target.column.spec
        (ctx.columnRows target.column)).isSome) ∧
      r.frame = ⟨targets.map fun target =>
        ⟨target.sexptype, targetCells target (ctx.columnRows target.column)⟩,
        rowsOf ctx.groups⟩ := by
  have hok := h.noTaskFails hctx.plans_eq_nil
  obtain ⟨targets, heap, halloc, hframe, hplaced⟩ := h.ok_frame hctx
  have hnative (target : TargetColumn) (htarget : target ∈ targets) :
      nativeCells target.column.spec (ctx.columnRows target.column) =
        some ((List.range (rowsOf ctx.groups)).map fun row =>
          heap (target.index, row)) := by
    rw [List.range_eq_range']
    refine nativeCells_of_placed
      (fun group => group.chunk target.column.fileColumn)
      ctx.groups 0 ?_ ?_
    · rintro ⟨index, group⟩ hentry
      exact (job_holds 0 hctx halloc htarget hentry).length_eq
    · rintro before ⟨index, group⟩ after hsplit hrows
      have hplan := plan_mem hsplit hrows
      obtain ⟨cells, hcells, hlen, hput⟩ := hplaced _ hplan target htarget
      refine ⟨cells, ?_, by simpa using hput⟩
      exact chunkCells_native hctx hdeliver halloc hok htarget
        (by rw [hsplit]; simp) hplan hcells hlen
  refine ⟨targets, halloc, ?_, ?_⟩
  · intro target htarget
    rw [hnative target htarget]
    rfl
  · rw [hframe, heapFrame]
    congr 1
    refine List.map_congr_left ?_
    intro target htarget
    rw [targetCells_of_native (hnative target htarget)]

/-- The same, of the `i`-th selected column. -/
theorem CollectRun.column_native
    {r : ReadResult} {i : Nat} {s : SelectedColumn}
    (hctx : ctx.Reads file)
    (hdeliver : ColumnsDeliver ctx)
    (h : CollectRun ctx handle run (.ok r))
    (hs : ctx.selection.columns[i]? = some s) :
    ∃ sexptype cells,
      columnSexpType s.spec.type s.spec.kind = .ok sexptype ∧
      r.frame.columns[i]? = some ⟨sexptype, cells⟩ ∧
      nativeCells s.spec (ctx.columnRows s) = some cells := by
  obtain ⟨targets, halloc, hsome, hframe⟩ := h.columns_native hctx hdeliver
  obtain ⟨-, hcolumns, htypes⟩ := allocateResult_ok halloc
  rw [← hcolumns, List.getElem?_map] at hs
  obtain ⟨target, htarget, rfl⟩ := Option.map_eq_some_iff.mp hs
  have hmem := List.mem_of_getElem? htarget
  obtain ⟨cells, hcells⟩ := Option.isSome_iff_exists.mp (hsome target hmem)
  refine ⟨target.sexptype, cells, htypes target hmem, ?_, hcells⟩
  rw [hframe]
  simp [htarget, targetCells_of_native hcells]

theorem CollectRun.columns_eq
    {r : ReadResult}
    (hctx : ctx.Reads file)
    (hdeliver : ColumnsDeliver ctx)
    (h : CollectRun ctx handle run (.ok r)) :
    ∃ targets, allocateResult ctx.selection = .ok targets ∧
      r.frame = ⟨targets.map fun target =>
        ⟨target.sexptype, targetCells target (ctx.columnRows target.column)⟩,
        rowsOf ctx.groups⟩ := by
  obtain ⟨targets, halloc, -, hframe⟩ := h.columns_native hctx hdeliver
  exact ⟨targets, halloc, hframe⟩

theorem warns_mergeFlags
    (native : NativeReader) (tasks : List Task) (flags : Nat → Flags)
    (column : Nat) (w : Warning) :
    (mergeFlags native tasks flags column).warns w = true ↔
      (flags column).warns w = true ∨
        ∃ task ∈ tasks, task.selectionIndex = column ∧
          (columnTaskRun native task).flags.warns w = true := by
  induction tasks generalizing flags with
  | nil =>
      simp [mergeFlags]
  | cons task rest ih =>
      have hrest := ih (Function.update flags task.selectionIndex
        ((flags task.selectionIndex).or (columnTaskRun native task).flags))
      rw [mergeFlags, List.foldl_cons]
      rw [mergeFlags] at hrest
      rw [hrest]
      by_cases hcolumn : task.selectionIndex = column
      · subst hcolumn
        simp [or_assoc]
      · rw [Function.update_of_ne (Ne.symm hcolumn)]
        simp [hcolumn]

/-- Flags of the main-thread pass, when each chunk adds its own. -/
theorem warns_mainPass
    {native : NativeReader} {chunk : Nat} {jobs : List (Nat × ChunkJob)}
    {main : MainPass} {added : Nat × ChunkJob → Flags}
    (hadded : ∀ entry ∈ jobs, ∀ flags blocks flags',
      collectMainChunk native entry.2 chunk flags = .ok (blocks, flags') →
      flags' = flags.or (added entry))
    (h : mainPass native chunk jobs = .ok main)
    (column : Nat) (w : Warning) :
    (main.flags column).warns w = true ↔
      ∃ entry ∈ jobs, entry.1 = column ∧ (added entry).warns w = true := by
  suffices hgen : ∀ (rest : List (Nat × ChunkJob)) (state : MainPass),
      (∀ entry ∈ rest, entry ∈ jobs) →
      rest.foldlM (mainStep native chunk) state = .ok main →
      ((main.flags column).warns w = true ↔
        (state.flags column).warns w = true ∨
          ∃ entry ∈ rest, entry.1 = column ∧ (added entry).warns w = true) by
    simpa using hgen jobs _ (fun _ hentry => hentry) h
  intro rest
  induction rest with
  | nil =>
      intro state _ hrun
      simp only [List.foldlM_nil, pure_eq_ok, Except.ok.injEq] at hrun
      subst hrun
      simp
  | cons entry rest ih =>
      intro state hmem hrun
      rw [List.foldlM_cons] at hrun
      obtain ⟨_, hstep, hrun⟩ := bind_eq_ok_iff.mp hrun
      obtain ⟨blocks, flags, hread, rfl⟩ := mainStep_ok hstep
      rw [ih _ (fun entry hentry => hmem entry (by simp [hentry])) hrun]
      have hflags := hadded entry (hmem entry (by simp)) _ _ _ hread
      by_cases hcolumn : entry.1 = column
      · subst hcolumn
        simp [hflags, or_assoc]
      · simp [hcolumn, Function.update_of_ne (Ne.symm hcolumn)]

/-- The flags the rows of one column chunk call for. -/
def chunkFlags
    (file : ParquetFile) (s : SelectedColumn) (index : Nat) : Flags :=
  match file.rowGroups[index]? with
  | none => Flags.none
  | some group =>
      rowFlags s.spec (rowValues (group.chunk s.fileColumn))

/-- Every plan is of a selected row group with rows. -/
theorem exists_group_of_plan
    {plan : GroupPlan} {groups : List (Nat × RowGroup)} {offset : Nat}
    (h : plan ∈ groupPlans offset groups) :
    ∃ group, (plan.index, group) ∈ groups ∧
      plan.rows = group.numRows.toNat := by
  induction groups generalizing offset with
  | nil =>
      cases h
  | cons entry rest ih =>
      rw [groupPlans] at h
      split_ifs at h with hempty
      · obtain ⟨group, hgroup, hrows⟩ := ih h
        exact ⟨group, by simp [hgroup], hrows⟩
      · rcases List.mem_cons.mp h with rfl | h
        · exact ⟨entry.2, by simp, rfl⟩
        · obtain ⟨group, hgroup, hrows⟩ := ih h
          exact ⟨group, by simp [hgroup], hrows⟩

theorem CollectContext.Reads.chunkFlags_eq
    {index : Nat} {group : RowGroup}
    (hctx : ctx.Reads file)
    (hgroup : (index, group) ∈ ctx.groups) (s : SelectedColumn) :
    chunkFlags file s index =
      rowFlags s.spec (rowValues (group.chunk s.fileColumn)) := by
  rw [hctx.groups_eq] at hgroup
  rw [chunkFlags, Selection.mem_groups hgroup]

/-- A planned chunk calls for a warning exactly when a row of the column
does. -/
theorem warns_plans_iff
    {target : TargetColumn}
    (hctx : ctx.Reads file)
    (halloc : allocateResult ctx.selection = .ok targets)
    (htarget : target ∈ targets) (w : Warning) :
    (∃ plan ∈ ctx.plans,
        (chunkFlags file target.column plan.index).warns w = true) ↔
      (rowFlags target.column.spec
        (rowValues (ctx.columnRows target.column))).warns w = true := by
  rw [CollectContext.columnRows, warns_rowFlags_flatMap]
  constructor
  · rintro ⟨plan, hplan, hwarns⟩
    obtain ⟨group, hgroup, -⟩ := exists_group_of_plan hplan
    rw [hctx.chunkFlags_eq hgroup] at hwarns
    exact ⟨_, hgroup, hwarns⟩
  · rintro ⟨⟨index, group⟩, hgroup, hwarns⟩
    have hlen := (job_holds 0 hctx halloc htarget hgroup).length_eq
    have hrows : 0 < group.numRows := by
      by_contra hempty
      have hnil : group.chunk target.column.fileColumn = [] := by
        apply List.length_eq_zero_iff.mp
        simp only [TargetColumn.job] at hlen
        omega
      simp [hnil, rowValues] at hwarns
    obtain ⟨before, after, hsplit⟩ := List.append_of_mem hgroup
    refine ⟨_, plan_mem hsplit hrows, ?_⟩
    rw [hctx.chunkFlags_eq hgroup]
    exact hwarns

/-- Every chunk of the main-thread pass adds the flags of its rows. -/
theorem main_adds
    (hctx : ctx.Reads file)
    (hdeliver : ColumnsDeliver ctx)
    (halloc : allocateResult ctx.selection = .ok targets) :
    ∀ entry ∈ mainJobs ctx.plans targets, ∀ flags blocks flags',
      collectMainChunk ctx.native entry.2 ctx.chunk flags =
        .ok (blocks, flags') →
      flags' = flags.or (chunkFlags file
        ⟨entry.2.fileColumn, entry.2.spec⟩ entry.2.rowGroup) := by
  intro entry hentry flags blocks flags' hread
  simp only [mainJobs, List.mem_flatMap, List.mem_map, List.mem_filter]
    at hentry
  obtain ⟨plan, hplan, target, ⟨htarget, -⟩, rfl⟩ := hentry
  obtain ⟨group, hgroup, hrows⟩ := exists_group_of_plan hplan
  obtain ⟨index, rows, offset⟩ := plan
  simp only at hgroup hrows
  subst hrows
  obtain ⟨cells, -, -, hflags⟩ :=
    main_native hctx hdeliver halloc htarget hgroup hread
  rw [hflags]
  exact congrArg flags.or (hctx.chunkFlags_eq hgroup target.column).symm

theorem task_adds
    {task : Task}
    (hctx : ctx.Reads file)
    (hdeliver : ColumnsDeliver ctx)
    (halloc : allocateResult ctx.selection = .ok targets)
    (hok : NoTaskFails ctx)
    (htask : task ∈ ctx.tasks targets) :
    (columnTaskRun ctx.native task).flags =
      chunkFlags file ⟨task.fileColumn, task.spec⟩ task.rowGroup := by
  have hfailure := hok targets halloc task htask
  obtain ⟨plan, hplan, target, htarget, hnumeric, rfl⟩ :=
    mem_numericTasks.mp htask
  obtain ⟨group, hgroup, hrows⟩ := exists_group_of_plan hplan
  obtain ⟨index, rows, offset⟩ := plan
  simp only at hgroup hrows
  subst hrows
  rw [(task_native hctx hdeliver halloc htarget hnumeric hgroup hfailure).2]
  exact (hctx.chunkFlags_eq hgroup target.column).symm

/-- The merged flags of a column are those its rows call for. -/
theorem mergeFlags_eq
    {main : MainPass} {target : TargetColumn}
    (hctx : ctx.Reads file)
    (hdeliver : ColumnsDeliver ctx)
    (halloc : allocateResult ctx.selection = .ok targets)
    (hok : NoTaskFails ctx)
    (hmain : ctx.main targets = .ok main)
    (htarget : target ∈ targets) :
    mergeFlags ctx.native (ctx.tasks targets) main.flags target.index =
      rowFlags target.column.spec
        (rowValues (ctx.columnRows target.column)) := by
  have hsame {other : TargetColumn} (hother : other ∈ targets)
      (hindex : other.index = target.index) : other = target :=
    List.inj_on_of_nodup_map (nodup_targets halloc) hother htarget hindex
  apply Flags.ext_warns
  intro w
  rw [warns_mergeFlags,
    warns_mainPass (main_adds hctx hdeliver halloc) hmain,
    ← warns_plans_iff hctx halloc htarget]
  constructor
  · rintro (⟨entry, hentry, hindex, hwarns⟩ | ⟨task, htask, hindex, hwarns⟩)
    · simp only [mainJobs, List.mem_flatMap, List.mem_map,
        List.mem_filter] at hentry
      obtain ⟨plan, hplan, other, ⟨hother, -⟩, rfl⟩ := hentry
      obtain rfl := hsame hother hindex
      exact ⟨plan, hplan, hwarns⟩
    · rw [task_adds hctx hdeliver halloc hok htask] at hwarns
      obtain ⟨plan, hplan, other, hother, -, rfl⟩ := mem_numericTasks.mp htask
      obtain rfl := hsame hother hindex
      exact ⟨plan, hplan, hwarns⟩
  · rintro ⟨plan, hplan, hwarns⟩
    cases honMain : target.onMain with
    | true =>
        left
        refine ⟨(target.index, target.job plan), ?_, rfl, hwarns⟩
        simp only [mainJobs, List.mem_flatMap, List.mem_map,
          List.mem_filter]
        exact ⟨plan, hplan, target, ⟨htarget, honMain⟩, rfl⟩
    | false =>
        right
        have htask : target.task plan ∈ ctx.tasks targets :=
          mem_numericTasks.mpr ⟨plan, hplan, target, htarget, honMain, rfl⟩
        refine ⟨_, htask, rfl, ?_⟩
        rw [task_adds hctx hdeliver halloc hok htask]
        exact hwarns

/-- A collect flags the columns whose rows call for it. -/
theorem CollectRun.flags_eq
    {r : ReadResult}
    (hctx : ctx.Reads file)
    (hdeliver : ColumnsDeliver ctx)
    (halloc : allocateResult ctx.selection = .ok targets)
    (h : CollectRun ctx handle run (.ok r)) :
    r.flags = targets.map fun target =>
      rowFlags target.column.spec
        (rowValues (ctx.columnRows target.column)) := by
  have hok := h.noTaskFails hctx.plans_eq_nil
  generalize hresult : Except.ok r = result at h
  cases h with
  | tooManyRows _ | unsupported _ _ =>
      cases hresult
  | empty _ halloc' hempty =>
      rw [halloc] at halloc'
      cases halloc'
      cases hresult
      refine List.map_congr_left ?_
      intro target htarget
      rcases hempty with hrows | hcolumns
      · apply Flags.ext_warns
        intro w
        rw [← warns_plans_iff hctx halloc htarget, hctx.plans_eq_nil hrows]
        simp
      · have hmap := (allocateResult_ok halloc).2.1
        rw [hcolumns, List.map_eq_nil_iff] at hmap
        rw [hmap] at htarget
        cases htarget
  | read _ halloc' _ _ hrun =>
      rw [halloc] at halloc'
      cases halloc'
      have hserial := hrun.result_eq halloc (hok _ halloc)
      rw [← hresult, serialResult] at hserial
      obtain ⟨main, hmain, hend⟩ := bind_eq_ok_iff.mp hserial.symm
      rw [collectEnd, firstFailure_eq_none_iff.mpr (hok _ halloc)] at hend
      cases hend
      exact List.map_congr_left fun target htarget =>
        mergeFlags_eq hctx hdeliver halloc hok hmain htarget

/-- The flags of the `i`-th selected column. -/
theorem CollectRun.column_flags
    {r : ReadResult} {i : Nat} {s : SelectedColumn}
    (hctx : ctx.Reads file)
    (hdeliver : ColumnsDeliver ctx)
    (h : CollectRun ctx handle run (.ok r))
    (hs : ctx.selection.columns[i]? = some s) :
    r.flags[i]? =
      some (rowFlags s.spec (rowValues (ctx.columnRows s))) := by
  obtain ⟨targets, halloc, -⟩ := h.columns_eq hctx hdeliver
  rw [← (allocateResult_ok halloc).2.1, List.getElem?_map] at hs
  obtain ⟨target, htarget, rfl⟩ := Option.map_eq_some_iff.mp hs
  rw [h.flags_eq hctx hdeliver halloc]
  simp [htarget]

end Collected

section Walked

variable {file : ParquetFile} {ctx : CollectContext}
  {targets : List TargetColumn}

/-- What copying one column of a batch gives. -/
theorem copyBatchTarget_ok
    {batch : NativeBatch} {rows : Nat → List Row} {flags : Nat → Flags}
    {target : TargetColumn} {column : RVector} {raised : Flags}
    (hbatch : batch.Delivers ctx.selection rows)
    (hselected :
      ctx.selection.columns[target.index]? = some target.column)
    (hsupported : target.column.spec.Supported)
    (hfits : ∀ row ∈ rows target.index, row.Fits target.column.spec)
    (h : copyBatchTarget batch flags target = .ok (column, raised)) :
    (nativeCells target.column.spec (rows target.index)).isSome = true ∧
      column = ⟨target.sexptype, targetCells target (rows target.index)⟩ ∧
      raised = (flags target.index).or
        (rowFlags target.column.spec (rowValues (rows target.index))) := by
  unfold copyBatchTarget at h
  split at h
  · cases h
  · cases h
  · rename_i a values hcolumn
    split_ifs at h with hvalues
    rw [not_not] at hvalues
    subst hvalues
    obtain ⟨hlength, hdelivers⟩ := hbatch _ _ hselected
    simp only [bind_eq_ok_iff, pure_eq_ok, Except.ok.injEq,
      Prod.mk.injEq] at h
    obtain ⟨⟨cells, found⟩, hcopy, _, -, rfl, rfl⟩ := h
    rw [← hlength, Int.toNat_natCast] at hcopy ⊢
    obtain ⟨hcells, hflags⟩ :=
      copyBatchColumn_ok hsupported hfits (hdelivers a hcolumn) hcopy
    have hlen := length_nativeCells hcells
    refine ⟨by simp [hcells], ?_, hflags⟩
    rw [overwrite_full _ _ (by simp [hlen]), targetCells_of_native hcells]

/-- What copying a whole batch gives. -/
theorem copyBatchTargets_ok
    {batch : NativeBatch} {rows : Nat → List Row}
    (hbatch : batch.Delivers ctx.selection rows)
    (htargets : ∀ target ∈ targets,
      ctx.selection.columns[target.index]? = some target.column ∧
        target.column.spec.Supported ∧
        ∀ row ∈ rows target.index, row.Fits target.column.spec)
    (hnodup : (targets.map TargetColumn.index).Nodup)
    {flags flags' : Nat → Flags} {columns : List RVector}
    (h : copyBatchTargets batch targets flags = .ok (columns, flags')) :
    columns = (targets.map fun target =>
        ⟨target.sexptype, targetCells target (rows target.index)⟩) ∧
      (∀ target ∈ targets,
        (nativeCells target.column.spec (rows target.index)).isSome = true ∧
          flags' target.index = (flags target.index).or
            (rowFlags target.column.spec
              (rowValues (rows target.index)))) ∧
      ∀ i, i ∉ targets.map TargetColumn.index → flags' i = flags i := by
  induction targets generalizing flags columns with
  | nil =>
      obtain ⟨rfl, rfl⟩ : [] = columns ∧ flags = flags' := by
        simpa [copyBatchTargets] using h
      simp
  | cons target rest ih =>
      rw [List.map_cons, List.nodup_cons] at hnodup
      simp only [copyBatchTargets, bind_eq_ok_iff, pure_eq_ok,
        Except.ok.injEq, Prod.mk.injEq] at h
      obtain ⟨⟨column, raised⟩, hcopy, ⟨others, found⟩, hrest, rfl, rfl⟩ := h
      obtain ⟨hselected, hsupported, hfits⟩ := htargets target (by simp)
      obtain ⟨hsome, rfl, rfl⟩ :=
        copyBatchTarget_ok hbatch hselected hsupported hfits hcopy
      obtain ⟨rfl, hothers, hframe⟩ := ih
        (fun other hother => htargets other (by simp [hother])) hnodup.2
        hrest
      refine ⟨rfl, ?_, ?_⟩
      · intro other hother
        rcases List.mem_cons.mp hother with rfl | hother
        · refine ⟨hsome, ?_⟩
          rw [hframe _ hnodup.1, Function.update_self]
        · obtain ⟨hsome', hflags'⟩ := hothers other hother
          have hne : other.index ≠ target.index := by
            intro heq
            exact hnodup.1 (heq ▸ List.mem_map_of_mem hother)
          rw [Function.update_of_ne hne] at hflags'
          exact ⟨hsome', hflags'⟩
      · intro i hi
        rw [List.map_cons, List.mem_cons, not_or] at hi
        rw [hframe i hi.2, Function.update_of_ne hi.1]

/-- The rows of a column over several batches. -/
def partRows
    (parts : List (NativeBatch × (Nat → List Row))) (i : Nat) : List Row :=
  parts.flatMap fun part => part.2 i

/-- The number of rows of several batches. -/
def partCount (parts : List (NativeBatch × (Nat → List Row))) : Nat :=
  (parts.map fun part => part.1.numRows.toNat).sum

theorem bindRows_map
    (targets : List TargetColumn)
    (first second : TargetColumn → List RCell) (n m : Nat) :
    bindRows
        ⟨targets.map fun target => ⟨target.sexptype, first target⟩, n⟩
        ⟨targets.map fun target => ⟨target.sexptype, second target⟩, m⟩ =
      ⟨targets.map fun target =>
        ⟨target.sexptype, first target ++ second target⟩, n + m⟩ := by
  simp [bindRows, List.zipWith_map_left, List.zipWith_map_right,
    List.zipWith_self]

theorem targetCells_append
    {target : TargetColumn} {rows rows' : List Row}
    (h : (nativeCells target.column.spec rows).isSome = true)
    (h' : (nativeCells target.column.spec rows').isSome = true) :
    (nativeCells target.column.spec (rows ++ rows')).isSome = true ∧
      targetCells target (rows ++ rows') =
        targetCells target rows ++ targetCells target rows' := by
  obtain ⟨cells, hcells⟩ := Option.isSome_iff_exists.mp h
  obtain ⟨cells', hcells'⟩ := Option.isSome_iff_exists.mp h'
  have happend := nativeCells_append hcells hcells'
  rw [targetCells_of_native happend, targetCells_of_native hcells,
    targetCells_of_native hcells', happend]
  exact ⟨rfl, rfl⟩

/-- What a walk over some batches gives: the elements of their rows and the
flags these call for. -/
structure WalkedAll
    (targets : List TargetColumn)
    (parts : List (NativeBatch × (Nat → List Row)))
    (flags flags' : Nat → Flags) (frames : List Frame) : Prop where
  isSome : ∀ target ∈ targets,
    (nativeCells target.column.spec
      (partRows parts target.index)).isSome = true
  flags_eq : ∀ target ∈ targets,
    flags' target.index = (flags target.index).or
      (rowFlags target.column.spec
        (rowValues (partRows parts target.index)))
  bind_eq : ∀ (first : TargetColumn → List RCell) (n : Nat),
    bindFrames
        ⟨targets.map fun target => ⟨target.sexptype, first target⟩, n⟩
        frames =
      ⟨targets.map fun target => ⟨target.sexptype,
        first target ++ targetCells target (partRows parts target.index)⟩,
        n + partCount parts⟩

theorem WalkedAll.nil
    (targets : List TargetColumn) (flags : Nat → Flags) :
    WalkedAll targets [] flags flags [] where
  isSome := by simp [partRows, nativeCells, rowValues]
  flags_eq := by simp [partRows, rowValues]
  bind_eq := by
    simp [bindFrames, partRows, partCount, targetCells, nativeCells,
      rowValues]

/-- A batch without rows, which is skipped. -/
theorem WalkedAll.skip
    {parts : List (NativeBatch × (Nat → List Row))}
    {part : NativeBatch × (Nat → List Row)}
    {flags flags' : Nat → Flags} {frames : List Frame}
    (hzero : part.1.numRows = 0)
    (hnil : ∀ target ∈ targets, part.2 target.index = [])
    (h : WalkedAll targets parts flags flags' frames) :
    WalkedAll targets (part :: parts) flags flags' frames := by
  have hrows : ∀ target ∈ targets,
      partRows (part :: parts) target.index =
        partRows parts target.index := by
    intro target htarget
    simp [partRows, hnil target htarget]
  have hcount : partCount (part :: parts) = partCount parts := by
    simp [partCount, hzero]
  refine ⟨?_, ?_, ?_⟩
  · intro target htarget
    rw [hrows target htarget]
    exact h.isSome target htarget
  · intro target htarget
    rw [hrows target htarget]
    exact h.flags_eq target htarget
  · intro first n
    rw [h.bind_eq, hcount]
    congr 1
    exact List.map_congr_left fun target htarget => by
      rw [hrows target htarget]

/-- A batch that is copied. -/
theorem WalkedAll.cons
    {parts : List (NativeBatch × (Nat → List Row))}
    {part : NativeBatch × (Nat → List Row)}
    {flags raised flags' : Nat → Flags} {frames : List Frame}
    (hpart : ∀ target ∈ targets,
      (nativeCells target.column.spec
          (part.2 target.index)).isSome = true ∧
        raised target.index = (flags target.index).or
          (rowFlags target.column.spec
            (rowValues (part.2 target.index))))
    (h : WalkedAll targets parts raised flags' frames) :
    WalkedAll targets (part :: parts) flags flags'
      (⟨targets.map fun target =>
          ⟨target.sexptype, targetCells target (part.2 target.index)⟩,
        part.1.numRows.toNat⟩ :: frames) := by
  have hrows (i : Nat) :
      partRows (part :: parts) i = part.2 i ++ partRows parts i := by
    simp [partRows]
  have happend : ∀ target ∈ targets, _ := fun target htarget =>
    targetCells_append (hpart target htarget).1 (h.isSome target htarget)
  refine ⟨?_, ?_, ?_⟩
  · intro target htarget
    rw [hrows]
    exact (happend target htarget).1
  · intro target htarget
    rw [hrows, rowValues_append, rowFlags_append, ← Flags.or_assoc,
      ← (hpart target htarget).2]
    exact h.flags_eq target htarget
  · intro first n
    have hbind := h.bind_eq
      (fun target => first target ++
        targetCells target (part.2 target.index))
      (n + part.1.numRows.toNat)
    rw [bindFrames, List.foldl_cons, bindRows_map]
    rw [bindFrames] at hbind
    rw [hbind]
    congr 1
    · refine List.map_congr_left fun target htarget => ?_
      rw [hrows, (happend target htarget).2, List.append_assoc]
    · simp [partCount, Nat.add_assoc]

theorem walkLoop_ok
    (hctx : ctx.Reads file)
    (halloc : allocateResult ctx.selection = .ok targets)
    {parts : List (NativeBatch × (Nat → List Row))}
    (hparts : ∀ part ∈ parts, part.1.Delivers ctx.selection part.2)
    (hfits : ∀ part ∈ parts, ∀ target ∈ targets,
      ∀ row ∈ part.2 target.index, row.Fits target.column.spec)
    {flags flags' : Nat → Flags} {frames : List Frame}
    (h : walkLoop ctx.selection (parts.map fun part => .batch part.1) flags =
      .ok (frames, flags')) :
    WalkedAll targets parts flags flags' frames := by
  have hselected : ∀ target ∈ targets,
      ctx.selection.columns[target.index]? = some target.column :=
    fun target htarget => selected_getElem? halloc htarget
  induction parts generalizing flags frames with
  | nil =>
      obtain ⟨rfl, rfl⟩ : [] = frames ∧ flags = flags' := by
        simpa [walkLoop] using h
      exact WalkedAll.nil targets flags
  | cons part parts ih =>
      have hrest := fun {flags} {frames} => @ih
        (fun part hpart => hparts part (by simp [hpart]))
        (fun part hpart => hfits part (by simp [hpart])) flags frames
      have hpart := hparts part (by simp)
      rw [List.map_cons, walkLoop] at h
      split_ifs at h with hbad hzero
      · refine WalkedAll.skip hzero ?_ (hrest h)
        intro target htarget
        have hlength := (hpart _ _ (hselected target htarget)).1
        exact List.length_eq_zero_iff.mp (by omega)
      · simp only [halloc, ok_bind, bind_eq_ok_iff, pure_eq_ok,
          Except.ok.injEq, Prod.mk.injEq] at h
        obtain ⟨⟨frame, raised⟩, hcopy, ⟨others, found⟩, hloop, rfl, rfl⟩ := h
        unfold copyBatch at hcopy
        split_ifs at hcopy
        simp only [bind_eq_ok_iff, pure_eq_ok, Except.ok.injEq,
          Prod.mk.injEq] at hcopy
        obtain ⟨⟨columns, raised'⟩, hcopied, rfl, rfl⟩ := hcopy
        obtain ⟨rfl, hcolumns, -⟩ := copyBatchTargets_ok hpart
          (fun target htarget => ⟨hselected target htarget,
            hctx.supported halloc target htarget,
            hfits part (by simp) target htarget⟩)
          (nodup_targets halloc) hcopied
        exact WalkedAll.cons hcolumns (hrest hloop)

theorem length_columnRows
    {target : TargetColumn}
    (hctx : ctx.Reads file)
    (halloc : allocateResult ctx.selection = .ok targets)
    (htarget : target ∈ targets) :
    (ctx.columnRows target.column).length = rowsOf ctx.groups := by
  have hlength : ∀ entry ∈ ctx.groups,
      (entry.2.chunk target.column.fileColumn).length =
        entry.2.numRows.toNat := fun entry hentry =>
    (job_holds 0 hctx halloc htarget hentry).length_eq
  rw [CollectContext.columnRows, List.length_flatMap, rowsOf]
  exact congrArg List.sum (List.map_congr_left hlength)

theorem fits_columnRows
    {target : TargetColumn} {row : Row}
    (hctx : ctx.Reads file)
    (halloc : allocateResult ctx.selection = .ok targets)
    (htarget : target ∈ targets)
    (hrow : row ∈ ctx.columnRows target.column) :
    row.Fits target.column.spec := by
  obtain ⟨entry, hentry, hrow⟩ := List.mem_flatMap.mp hrow
  exact (job_holds 0 hctx halloc htarget hentry).fits row hrow

theorem length_partRows
    {parts : List (NativeBatch × (Nat → List Row))} {i : Nat}
    (h : ∀ part ∈ parts, ((part.2 i).length : ℤ) = part.1.numRows) :
    (partRows parts i).length = partCount parts := by
  rw [partRows, List.length_flatMap, partCount]
  refine congrArg List.sum (List.map_congr_left ?_)
  intro part hpart
  have := h part hpart
  omega

/-- Batches without columns add up to the rows of the selected groups. -/
theorem bindFrames_walkEmptyColumns
    {batchSize : Nat} (hbatch : 0 < batchSize)
    (groups : List (Nat × RowGroup)) (n : Nat) :
    bindFrames ⟨[], n⟩ (walkEmptyColumns batchSize groups) =
      ⟨[], n + rowsOf groups⟩ := by
  have hsizes : ∀ (sizes : List Nat) (n : Nat),
      bindFrames ⟨[], n⟩ (sizes.map fun size => ⟨[], size⟩) =
        ⟨[], n + sizes.sum⟩ := by
    intro sizes
    induction sizes with
    | nil =>
        intro n
        rfl
    | cons size sizes ih =>
        intro n
        rw [List.map_cons, bindFrames, List.foldl_cons, ← bindFrames,
          List.sum_cons, ← Nat.add_assoc]
        exact ih (n + size)
  induction groups generalizing n with
  | nil =>
      rfl
  | cons entry rest ih =>
      have hsum := sum_slices hbatch 0 entry.2.numRows.toNat
      rw [rowsOf_cons, ← Nat.add_assoc, ← ih, walkEmptyColumns,
        List.flatMap_cons, bindFrames, List.foldl_append, ← bindFrames,
        ← bindFrames]
      have hentry := hsizes ((slices batchSize 0
        entry.2.numRows.toNat).map Prod.snd) n
      rw [hsum, List.map_map] at hentry
      rw [← hentry]
      rfl

/-- What the batches of a walk that returns hold. -/
theorem walk_ok
    {source : Except String (List BatchStep)} {batchSize : Nat}
    {frames : List Frame} {flags : List Flags}
    (hctx : ctx.Reads file)
    (hbatch : 0 < batchSize)
    (halloc : allocateResult ctx.selection = .ok targets)
    (hsource : ∀ steps, source = .ok steps → BatchesDeliver ctx steps)
    (h : walk { ctx with batchSize := batchSize } source =
      .ok (frames, flags)) :
    bindFrames (zeroRowFrame targets) frames =
        ⟨targets.map fun target => ⟨target.sexptype,
          targetCells target (ctx.columnRows target.column)⟩,
          rowsOf ctx.groups⟩ ∧
      flags = targets.map fun target =>
        rowFlags target.column.spec
          (rowValues (ctx.columnRows target.column)) := by
  have hmap := (allocateResult_ok halloc).2.1
  unfold walk at h
  simp only at h
  split_ifs at h with hrows hcolumns
  · -- no rows: no batch, and nothing in any chunk
    simp only [Except.ok.injEq, Prod.mk.injEq] at h
    obtain ⟨rfl, rfl⟩ := h
    have htotal : rowsOf ctx.groups = 0 := by
      rw [← hctx.totalRows, hrows]
      rfl
    have hnil : ∀ target ∈ targets, ctx.columnRows target.column = [] :=
      fun target htarget => List.length_eq_zero_iff.mp
        ((length_columnRows hctx halloc htarget).trans htotal)
    constructor
    · rw [bindFrames, List.foldl_nil, zeroRowFrame, htotal]
      congr 1
      refine List.map_congr_left fun target htarget => ?_
      rw [hnil target htarget]
      rfl
    · rw [← hmap, List.map_map]
      refine List.map_congr_left fun target htarget => ?_
      rw [hnil target htarget]
      rfl
  · -- no columns: only the row counts
    simp only [Except.ok.injEq, Prod.mk.injEq] at h
    obtain ⟨rfl, rfl⟩ := h
    rw [hcolumns, List.map_eq_nil_iff] at hmap
    subst hmap
    refine ⟨?_, rfl⟩
    rw [zeroRowFrame, List.map_nil, bindFrames_walkEmptyColumns hbatch,
      Nat.zero_add]
    rfl
  · cases source with
    | error reason =>
        cases h
    | ok steps =>
        simp only [bind_eq_ok_iff, pure_eq_ok, Except.ok.injEq,
          Prod.mk.injEq] at h
        obtain ⟨⟨frames', found⟩, hloop, rfl, rfl⟩ := h
        obtain ⟨parts, rfl, hparts, hall⟩ := hsource steps rfl
        have hrowsOf : ∀ target ∈ targets,
            partRows parts target.index = ctx.columnRows target.column := by
          intro target htarget
          exact hall _ _ (selected_getElem? halloc htarget)
        have hwalked := walkLoop_ok hctx halloc hparts ?_ hloop
        · constructor
          · obtain ⟨target, htarget⟩ : ∃ target, target ∈ targets := by
              apply List.exists_mem_of_ne_nil
              rintro rfl
              exact hcolumns hmap.symm
            have hcount : partCount parts = rowsOf ctx.groups := by
              rw [← length_columnRows hctx halloc htarget,
                ← hrowsOf target htarget, length_partRows]
              exact fun part hpart => (hparts part hpart _ _
                (selected_getElem? halloc htarget)).1
            rw [zeroRowFrame, hwalked.bind_eq, hcount, Nat.zero_add]
            congr 1
            refine List.map_congr_left fun target htarget => ?_
            rw [hrowsOf target htarget, List.nil_append]
          · rw [← (allocateResult_ok halloc).1, List.map_map]
            refine List.map_congr_left fun target htarget => ?_
            refine (hwalked.flags_eq target htarget).trans ?_
            rw [hrowsOf target htarget, Flags.none_or]
        · intro part hpart target htarget row hrow
          refine fits_columnRows hctx halloc htarget ?_
          rw [← hrowsOf target htarget]
          exact List.mem_flatMap.mpr ⟨part, hpart, hrow⟩

end Walked

section Agreement

/-- A collect and a walk of the same selection that both return agree: the
batches of the walk, bound in order under a frame without rows, are the
collected frame, and the same columns are flagged. The two reads may use
different batch sizes, and the collect any schedule. -/
theorem collect_walk_agree
    {file : ParquetFile} {ctx : CollectContext} {handle : Handle}
    {run : List Action} {r : ReadResult}
    {source : Except String (List BatchStep)} {batchSize : Nat}
    {frames : List Frame} {flags : List Flags}
    (hctx : ctx.Reads file)
    (hbatch : 0 < batchSize)
    (hcolumns : ColumnsDeliver ctx)
    (hbatches : ∀ steps, source = .ok steps → BatchesDeliver ctx steps)
    (hcollect : CollectRun ctx handle run (.ok r))
    (hwalk : walk { ctx with batchSize := batchSize } source =
      .ok (frames, flags)) :
    ∃ targets, allocateResult ctx.selection = .ok targets ∧
      bindFrames (zeroRowFrame targets) frames = r.frame ∧
      flags = r.flags := by
  obtain ⟨targets, halloc, hframe⟩ := hcollect.columns_eq hctx hcolumns
  obtain ⟨hbound, hflags⟩ := walk_ok hctx hbatch halloc hbatches hwalk
  refine ⟨targets, halloc, ?_, ?_⟩
  · rw [hbound, hframe]
  · rw [hflags, hcollect.flags_eq hctx hcolumns halloc]

/-- The dense values of rows that hold no strings. -/
def wordBatch (c : ColumnSpec) (rows : List Row) : DenseBatch where
  count := rows.length
  levels := if c.maxDef = 0 then none else some (rows.map (Row.level c.maxDef))
  values := (rowValues rows).reduceOption.map (PhysValue.map fun _ => ⟨none, 0⟩)
  memory := pageMemory []
  levels_room := by
    intro list hlist
    split_ifs at hlist
    cases hlist
    rw [List.length_map]

/-- A column reader of rows that hold no strings. -/
def wordReader (c : ColumnSpec) (rows : List Row) : ColumnReader where
  readBatch position want := some (wordBatch c ((rows.drop position).take want))
  setPreserve := false
  loadPage := false
  dictionary := none
  readIndices := fun _ _ => none

/-- The same rows with a slot for each, under a bitmap. -/
def wordColumn (bitmap : Bytes) (rows : List Row) : AlignedColumn where
  data := rows.map fun row => (row.value.getD (.int32 0)).map fun _ => ⟨none, 0⟩
  bitmap := some bitmap
  memory := pageMemory []

def NoStrings (rows : List Row) : Prop :=
  ∀ row ∈ rows, ∀ value, row.value = some value → value.type ≠ .byteArray

theorem deref_word
    {value : PhysValue Bytes}
    (htype : value.type ≠ .byteArray)
    (memory : Memory) :
    derefValue memory (value.map fun _ => ⟨none, 0⟩) = value ∧
      ValidSlot (value.map fun _ => ⟨none, 0⟩) := by
  cases value with
  | byteArray bytes =>
      exact absurd rfl htype
  | _ =>
      exact ⟨rfl, by rintro ref ⟨⟩⟩

theorem wordReader_faithful
    {rows : List Row}
    (hwords : NoStrings rows)
    (c : ColumnSpec) :
    (wordReader c rows).Faithful c rows := by
  rintro position want _ ⟨rfl⟩ -
  have hvalues : ∀ value ∈ (rowValues ((rows.drop position).take want)).reduceOption,
      value.type ≠ .byteArray := by
    intro value hvalue
    rw [List.reduceOption_mem_iff] at hvalue
    obtain ⟨row, hrow, hsome⟩ := List.mem_map.mp hvalue
    exact hwords row (List.mem_of_mem_drop (List.mem_of_mem_take hrow)) value hsome
  refine ⟨⟨rfl, ?_⟩, _, [], (List.append_nil _).symm, ?_, ?_⟩
  · by_cases hzero : c.maxDef = 0
    · simp [wordBatch, hzero]
    · simp [wordBatch, hzero]
  · rw [wordBatch, List.map_map]
    refine (List.map_congr_left fun value hvalue => ?_).trans (List.map_id _)
    exact (deref_word (hvalues value hvalue) _).1
  · intro slot hslot
    obtain ⟨value, hvalue, rfl⟩ := List.mem_map.mp hslot
    exact (deref_word (hvalues value hvalue) (pageMemory [])).2

theorem wordColumn_delivers
    {bitmap : Bytes} {rows : List Row}
    (hwords : NoStrings rows)
    (hbits : (List.range rows.length).map (valuePresent (some bitmap)) =
      (rowValues rows).map Option.isSome) :
    (wordColumn bitmap rows).Delivers rows := by
  refine ⟨hbits, ?_⟩
  rw [wordColumn, rowValues, List.forall₂_map_left_iff, List.forall₂_map_right_iff,
    List.forall₂_same]
  intro row hrow value hvalue
  rw [hvalue]
  exact deref_word (hwords row hrow value hvalue) _

/-- Two OPTIONAL columns, of INT32 and INT64. -/
def gapLeaves : List Leaf :=
  [⟨["x"], .int32, 0, 1, 0, none⟩, ⟨["y"], .int64, 0, 1, 0, none⟩]

/-- Two row groups with nulls, the smallest INT32 and a number above 2^53. -/
def gapRows : Nat → Nat → List Row
  | 0, 0 => [.present (.int32 5), .null 0, .present (.int32 0x80000000)]
  | 0, _ => [.present (.int64 1), .present (.int64 0x20000000000001), .null 0]
  | _, 0 => [.null 0, .present (.int32 7)]
  | _, _ => [.present (.int64 4), .null 0]

def gapFile : ParquetFile where
  leaves := gapLeaves
  rowGroups := [⟨3, gapRows 0⟩, ⟨2, gapRows 1⟩]
  chunk_length := by
    intro group hgroup index leaf hleaf _
    rcases List.mem_pair.mp hgroup with rfl | rfl <;> rcases index with _ | _ <;> rfl
  chunk_fits := by
    intro group hgroup index leaf hleaf _ row hrow
    rcases index with _ | _ | index <;> cases hleaf <;>
      rcases List.mem_pair.mp hgroup with rfl | rfl <;> revert row <;>
      simp [gapRows, Row.Fits, Leaf.column, PhysValue.type]

def gapSelection : Selection :=
  ⟨[⟨0, (gapLeaves[0]).column .default .double⟩,
    ⟨1, (gapLeaves[1]).column .int64 .double⟩], [true, true], 5⟩

/-- The columns are read two rows at a time. -/
def gapContext : CollectContext where
  native := ⟨fun _ group column => .ok (wordReader
    ((gapLeaves[0]).column .default .double) (gapRows group column)), fun _ _ => none⟩
  selection := gapSelection
  groups := gapSelection.groups gapFile
  batchSize := 2

theorem gapContext_groups :
    gapContext.groups = [(0, ⟨3, gapRows 0⟩), (1, ⟨2, gapRows 1⟩)] :=
  rfl

theorem gapContext_reads : gapContext.Reads gapFile :=
  ⟨⟨none, none, [0, 1], .double, rfl⟩, rfl⟩

def gapTargets : List TargetColumn :=
  [⟨0, ⟨0, (gapLeaves[0]).column .default .double⟩, .intsxp⟩,
    ⟨1, ⟨1, (gapLeaves[1]).column .int64 .double⟩, .realsxp⟩]

theorem gapContext_alloc : allocateResult gapContext.selection = .ok gapTargets :=
  rfl

theorem gapRows_noStrings
    (group column : Nat) :
    NoStrings (gapRows group column) := by
  intro row hrow value hvalue
  rcases group with _ | group <;> rcases column with _ | column <;>
    simp only [gapRows, List.mem_cons, List.not_mem_nil, or_false] at hrow <;>
    rcases hrow with rfl | rfl | rfl <;> cases hvalue <;> decide

theorem gapContext_columnsDeliver : ColumnsDeliver gapContext := by
  intro entry hentry s hs attempt r hget
  cases hget
  have hchunk : entry.2.chunk = gapRows entry.1 := by
    rw [gapContext_groups] at hentry
    rcases List.mem_pair.mp hentry with rfl | rfl
    · rfl
    · rfl
  rw [hchunk]
  refine ⟨?_, by rintro page offsets ⟨⟩⟩
  rcases List.mem_pair.mp hs with rfl | rfl
  · exact wordReader_faithful (gapRows_noStrings _ _) _
  · exact wordReader_faithful (gapRows_noStrings _ _)
      ((gapLeaves[1]).column .int64 .double)

theorem gapContext_main :
    gapContext.main gapTargets = .ok ⟨[], fun _ => Flags.none⟩ :=
  rfl

theorem gapContext_collect :
    ∃ run r, CollectRun gapContext mappedHandle run (.ok r) :=
  ⟨_, _, .read (by decide) gapContext_alloc (by decide)
    (by simp [gapContext, gapSelection])
    (.parallelDone (by decide) gapContext_main (Interleaving.sequential _))⟩

/-- Some rows of both columns, as a batch of the batch reader. -/
def gapPart (start count : Nat) (bits : Nat → UInt8) :
    NativeBatch × (Nat → List Row) :=
  let rows := fun i => ((gapRows 0 i ++ gapRows 1 i).drop start).take count
  (⟨count, [.ok (wordColumn [bits 0] (rows 0), count),
    .ok (wordColumn [bits 1] (rows 1), count)]⟩, rows)

theorem gapPart_delivers
    {start count : Nat} {bits : Nat → UInt8}
    (hbits : ∀ i < 2,
      ((gapPart start count bits).2 i).length = count ∧
        (List.range count).map (valuePresent (some [bits i])) =
          (rowValues ((gapPart start count bits).2 i)).map Option.isSome) :
    (gapPart start count bits).1.Delivers gapSelection
      (gapPart start count bits).2 := by
  have hwords : ∀ i, NoStrings ((gapPart start count bits).2 i) := by
    intro i row hrow
    rcases List.mem_append.mp (List.mem_of_mem_drop (List.mem_of_mem_take hrow)) with
      hrow | hrow
    · exact gapRows_noStrings 0 i row hrow
    · exact gapRows_noStrings 1 i row hrow
  have hcolumn : ∀ i < 2, (wordColumn [bits i] ((gapPart start count bits).2 i)).Delivers
      ((gapPart start count bits).2 i) := by
    intro i hi
    refine wordColumn_delivers (hwords i) ?_
    rw [(hbits i hi).1, (hbits i hi).2]
  intro i s hs
  obtain ⟨hi, -⟩ := List.getElem?_eq_some_iff.mp hs
  refine ⟨congrArg _ (hbits i hi).1, fun a ha => ?_⟩
  rcases i with _ | _ | i
  · cases ha
    exact hcolumn 0 (by decide)
  · cases ha
    exact hcolumn 1 (by decide)
  · cases ha

/-- Batches of two rows; the second one holds the last row of the first row group
and the first row of the other. -/
def gapParts : List (NativeBatch × (Nat → List Row)) :=
  [gapPart 0 2 fun i => if i = 0 then 1 else 3,
    gapPart 2 2 fun i => if i = 0 then 1 else 2,
    gapPart 4 1 fun i => if i = 0 then 1 else 0]

def gapSteps : List BatchStep :=
  gapParts.map fun part => .batch part.1

theorem gapSteps_deliver : BatchesDeliver gapContext gapSteps := by
  refine ⟨gapParts, rfl, ?_, ?_⟩
  · intro part hpart
    simp only [gapParts, List.mem_cons, List.not_mem_nil, or_false] at hpart
    rcases hpart with rfl | rfl | rfl <;> exact gapPart_delivers (by decide)
  · intro i s hs
    rcases i with _ | _ | i <;> cases hs <;> rfl

/-- Both columns with their nulls and lost numbers, read in batches of two rows that
cross the row groups. -/
theorem collect_walk_agree_two_groups :
    ∃ run r frames flags,
      CollectRun gapContext mappedHandle run (.ok r) ∧
        walk { gapContext with batchSize := 2 } (.ok gapSteps) = .ok (frames, flags) ∧
        frames.map Frame.rowCount = [2, 2, 1] ∧
        flags = [⟨true, false⟩, ⟨false, true⟩] ∧
        bindFrames (zeroRowFrame gapTargets) frames = r.frame ∧
        flags = r.flags := by
  obtain ⟨run, r, hrun⟩ := gapContext_collect
  have hwalk : walk { gapContext with batchSize := 2 } (.ok gapSteps) =
      .ok ([⟨[⟨.intsxp, [.int 5, .int naInteger]⟩,
            ⟨.realsxp, [.dbl (.num 1), .dbl .na]⟩], 2⟩,
          ⟨[⟨.intsxp, [.int naInteger, .int naInteger]⟩,
            ⟨.realsxp, [.dbl .na, .dbl (.num 4)]⟩], 2⟩,
          ⟨[⟨.intsxp, [.int 7]⟩, ⟨.realsxp, [.dbl .na]⟩], 1⟩],
        [⟨true, false⟩, ⟨false, true⟩]) := by
    decide +kernel
  obtain ⟨targets, halloc, hframe, hflags⟩ := collect_walk_agree gapContext_reads
    two_pos gapContext_columnsDeliver
    (fun steps hsteps => Except.ok.inj hsteps ▸ gapSteps_deliver) hrun hwalk
  rw [gapContext_alloc] at halloc
  cases halloc
  exact ⟨run, r, _, _, hrun, hwalk, rfl, rfl, hframe, hflags⟩

end Agreement

end Read
end QioParquet
