import QioParquet.Read.Schedule
import QioParquet.Read.ChunkLaws
import Mathlib.Tactic

/-!
# Where the rows of a collect end up

Every chunk, whether a task or the main thread read it, fills exactly its own
rows of its own column. Row `k` of a selected row group is therefore at the
number of selected rows before that group, plus `k`, whatever the schedule.
-/

namespace QioParquet
namespace Read

open Lib

section FullChunks

variable {native : NativeReader} {job : ChunkJob} {r : ColumnReader}
variable {chunk : Nat} {flags flags' : Flags} {blocks : List Block}

theorem length_scatterDenseColumn
    {c : ColumnSpec} {b : DenseBatch} {cells : List RCell}
    (hc : c.Supported)
    (h : scatterDenseColumn c b flags = .ok (cells, flags')) :
    cells.length = b.count := by
  unfold scatterDenseColumn at h
  split_ifs at h with huuid hbinary htext
  · simp only [bind_eq_ok_iff, pure_eq_ok, Except.ok.injEq,
      Prod.mk.injEq] at h
    obtain ⟨_, -, found, hfound, rfl, -⟩ := h
    rw [length_scatterLoop hfound, b.length_presence]
  · simp only [bind_eq_ok_iff, pure_eq_ok, Except.ok.injEq,
      Prod.mk.injEq] at h
    obtain ⟨found, hfound, rfl, -⟩ := h
    rw [length_scatterLoop hfound, b.length_presence]
  · simp only [bind_eq_ok_iff, pure_eq_ok, Except.ok.injEq,
      Prod.mk.injEq] at h
    obtain ⟨found, hfound, rfl, -⟩ := h
    rw [scatterTextLoop_eq (CharCache.sound_reset _ _)] at hfound
    rw [length_scatterLoop hfound, b.length_presence]
  · refine length_scatterNumericRaw htext ?_ h
    intro hfixed
    rcases hc hfixed with hkind | hkind
    · exact huuid hkind
    · exact hbinary hkind

/-- The stores made so far fill the first `position` rows of the chunk. -/
def FillsTo (job : ChunkJob) (position : Nat) (blocks : List Block) : Prop :=
  ∃ cells, cells.length = position ∧ Stores job blocks cells

theorem FillsTo.snoc
    {position want : Nat} {more : List RCell}
    (h : FillsTo job position blocks)
    (hmore : more.length = want)
    (hbound : position + want ≤ job.rows) :
    FillsTo job (position + want)
      (blocks ++ [(job.offset + position, more)]) := by
  obtain ⟨cells, hlen, hstores⟩ := h
  exact ⟨cells ++ more, by simp [hlen, hmore],
    hstores.snoc hlen (by omega)⟩

theorem materializeChunk_fills
    (hchunk : 0 < chunk)
    (hsupported : job.spec.Supported)
    (h : materializeChunk native job r chunk flags = .ok (blocks, flags')) :
    FillsTo job job.rows blocks := by
  have hend := foldlM_slices_inv hchunk (materializeStep native job r)
    (fun position state => FillsTo job position state.1) job.rows ?_
    0 job.rows (by omega) ⟨[], rfl, Stores.nil job⟩ h
  · simpa using hend
  · intro position want state state' _ hbound hinv hstep
    unfold materializeStep at hstep
    split at hstep
    · cases hstep
    · split_ifs at hstep with hcount
      simp only [bind_eq_ok_iff, pure_eq_ok, Except.ok.injEq] at hstep
      obtain ⟨⟨more, _⟩, hscatter, _, -, rfl⟩ := hstep
      refine hinv.snoc ?_ hbound
      rw [length_scatterDenseColumn hsupported hscatter]
      simpa using hcount

theorem dictionaryLoop_fills
    {dict : List Bytes}
    (hchunk : 0 < chunk)
    (start remaining : Nat) :
    start + remaining = job.rows →
    ∀ {blocks : List Block} {result : ReadPath × List Block},
      FillsTo job start blocks →
      dictionaryLoop job r dict (slices chunk start remaining) blocks =
        .ok result →
      ∃ position, FillsTo job position result.2 ∧
        (result.1 = .dictionary → position = job.rows) := by
  refine slices_induction hchunk
    (motive := fun start remaining =>
      start + remaining = job.rows →
        ∀ {blocks : List Block} {result : ReadPath × List Block},
          FillsTo job start blocks →
          dictionaryLoop job r dict (slices chunk start remaining) blocks =
            .ok result →
          ∃ position, FillsTo job position result.2 ∧
            (result.1 = .dictionary → position = job.rows))
    ?_ ?_ start remaining
  · intro start hend blocks result hfills h
    obtain rfl : (ReadPath.dictionary, blocks) = result := by
      simpa [dictionaryLoop] using h
    exact ⟨start, hfills, fun _ => hend⟩
  · intro start remaining hpos ih hend blocks result hfills h
    rw [slices_pos hchunk hpos, dictionaryLoop] at h
    have hgiveUp (hresult : (ReadPath.fallback, blocks) = result) :
        ∃ position, FillsTo job position result.2 ∧
          (result.1 = .dictionary → position = job.rows) := by
      subst hresult
      exact ⟨start, hfills, fun hpath => by cases hpath⟩
    split at h
    · exact hgiveUp (by simpa using h)
    · rename_i b _
      split_ifs at h with hshort
      · exact hgiveUp (by simpa using h)
      · rw [not_or, not_not] at hshort
        simp only [bind_eq_ok_iff] at h
        obtain ⟨more, hmore, _, -, hrest⟩ := h
        have hlen : more.length = min remaining chunk := by
          rw [length_scatterLoop hmore, length_presenceFlags b.levels_room]
          exact hshort.2
        exact ih (by omega) (hfills.snoc hlen (by omega)) hrest

/-- A chunk the main thread reads is filled whole. -/
theorem collectMainChunk_fills
    (hchunk : 0 < chunk)
    (hsupported : job.spec.Supported)
    (h : collectMainChunk native job chunk flags = .ok (blocks, flags')) :
    FillsTo job job.rows blocks := by
  unfold collectMainChunk at h
  simp only [bind_eq_ok_iff] at h
  obtain ⟨r, -, h⟩ := h
  split_ifs at h with htext
  swap
  · exact materializeChunk_fills hchunk hsupported h
  simp only [bind_eq_ok_iff] at h
  obtain ⟨⟨path, first⟩, hattempt, h⟩ := h
  have hfirst : ∃ position, FillsTo job position first ∧
      (path = .dictionary → position = job.rows) := by
    rcases collectDictionaryChunk_cases native job r chunk with
      ⟨-, path', hpath', heq⟩ | ⟨page, offsets, -, heq⟩
    · rw [heq] at hattempt
      cases hattempt
      exact ⟨0, ⟨[], rfl, Stores.nil job⟩, fun hpath => absurd hpath hpath'⟩
    · simp only [heq, bind_eq_ok_iff] at hattempt
      obtain ⟨dict, -, hloop⟩ := hattempt
      exact dictionaryLoop_fills hchunk 0 job.rows (by omega)
        ⟨[], rfl, Stores.nil job⟩ hloop
  obtain ⟨position, hfills, hcomplete⟩ := hfirst
  split_ifs at h with hpath
  · simp only [pure_eq_ok, Except.ok.injEq, Prod.mk.injEq] at h
    obtain ⟨rfl, rfl⟩ := h
    rwa [hcomplete hpath] at hfills
  · simp only [bind_eq_ok_iff, pure_eq_ok, Except.ok.injEq,
      Prod.mk.injEq] at h
    obtain ⟨r', -, ⟨rest, _⟩, hrest, rfl, -⟩ := h
    obtain ⟨before, -, hbefore⟩ := hfills
    obtain ⟨cells, hlen, hstores⟩ :=
      materializeChunk_fills hchunk hsupported hrest
    exact ⟨cells, hlen, hbefore.cover hstores hlen⟩

end FullChunks

section Columns

/-- The first rows of a result column. -/
def columnOf (heap : Heap) (column rows : Nat) : List RCell :=
  (List.range rows).map fun row => heap (column, row)

@[simp] theorem length_columnOf
    (heap : Heap) (column rows : Nat) :
    (columnOf heap column rows).length = rows := by
  simp [columnOf]

theorem getElem?_columnOf
    (heap : Heap) (column : Nat) {rows row : Nat} (hrow : row < rows) :
    (columnOf heap column rows)[row]? = some (heap (column, row)) := by
  simp [columnOf, hrow]

theorem runStores_of_spares
    {place : Nat × Nat} {actions : List Action} (heap : Heap)
    (h : Spares place actions) :
    runStores Action.store heap actions place = heap place := by
  have hnil : actions.filter (storesTo Action.store place) = [] :=
    List.filter_eq_nil_iff.mpr fun a ha => Bool.eq_false_iff.mp (h a ha)
  rw [runStores_filter, hnil]
  rfl

theorem putCells_concat
    (column offset : Nat) (cells : List RCell) (last : RCell) :
    putCells column offset (cells ++ [last]) =
      putCells column offset cells ++
        [.put column (offset + cells.length) last] := by
  simp [putCells, List.mapIdx_concat]

theorem runStores_putCells
    {column offset k : Nat} {cells : List RCell} {cell : RCell}
    (heap : Heap)
    (hcell : cells[k]? = some cell) :
    runStores Action.store heap (putCells column offset cells)
        (column, offset + k) = cell := by
  induction cells using List.reverseRecOn with
  | nil =>
      cases hcell
  | append_singleton cells last ih =>
      rw [putCells_concat, runStores_append]
      obtain ⟨hk, -⟩ := List.getElem?_eq_some_iff.mp hcell
      rw [List.length_append, List.length_singleton] at hk
      rcases Nat.lt_or_ge k cells.length with hlt | hge
      · rw [List.getElem?_append_left hlt] at hcell
        have hne : (column, offset + k) ≠ (column, offset + cells.length) := by
          intro h
          have := (Prod.mk.inj h).2
          omega
        rw [← ih hcell]
        exact Function.update_of_ne hne _ _
      · obtain rfl : k = cells.length := by omega
        obtain rfl : last = cell := by simpa using hcell
        exact Function.update_self _ _ _

/-- Putting elements is overwriting a part of the column. -/
theorem columnOf_putCells
    {column offset rows : Nat} {cells : List RCell} (heap : Heap)
    (hfit : offset + cells.length ≤ rows) :
    columnOf (runStores Action.store heap (putCells column offset cells))
        column rows =
      overwrite (columnOf heap column rows) offset cells := by
  have hlen := length_overwrite_of_le (columnOf heap column rows) offset cells
    (by simpa using hfit)
  apply List.ext_getElem?
  intro row
  rcases Nat.lt_or_ge row rows with hrow | hrow
  swap
  · rw [List.getElem?_eq_none (by simpa using hrow),
      List.getElem?_eq_none (by rw [hlen]; simpa using hrow)]
  rw [getElem?_columnOf _ _ hrow]
  by_cases hinside : offset ≤ row ∧ row < offset + cells.length
  · obtain ⟨k, rfl⟩ := Nat.exists_eq_add_of_le hinside.1
    have hk : k < cells.length := by omega
    rw [getElem?_overwrite_inside _ _ _ _ (by simp; omega) hk,
      runStores_putCells heap (List.getElem?_eq_getElem hk),
      List.getElem?_eq_getElem hk]
  · have houtside : row < offset ∨ offset + cells.length ≤ row := by
      omega
    rw [getElem?_overwrite_outside _ _ _ _ (by simp; omega) houtside,
      getElem?_columnOf _ _ hrow,
      runStores_of_spares heap (putCells_spares fun _ => houtside)]

/-- The stores of one chunk leave the chunk's elements in its rows. -/
theorem runStores_chunk
    {job : ChunkJob} {blocks : List Block} {cells : List RCell}
    {column k : Nat} {cell : RCell} (heap : Heap)
    (hstores : Stores job blocks cells)
    (hcell : cells[k]? = some cell) :
    runStores Action.store heap
        (blocks.flatMap fun block => putCells column block.1 block.2)
        (column, job.offset + k) = cell := by
  have happly : ∀ (blocks : List Block) (heap : Heap),
      (∀ block ∈ blocks,
        block.1 + block.2.length ≤ job.offset + job.rows) →
      columnOf (runStores Action.store heap
          (blocks.flatMap fun block => putCells column block.1 block.2))
          column (job.offset + job.rows) =
        applyBlocks (columnOf heap column (job.offset + job.rows)) blocks := by
    intro blocks
    induction blocks with
    | nil =>
        intro heap _
        rfl
    | cons block blocks ih =>
        intro heap hfit
        rw [List.flatMap_cons, runStores_append,
          ih _ fun block hblock => hfit block (by simp [hblock]),
          columnOf_putCells heap (hfit block (by simp))]
        rfl
  have hk : k < cells.length := (List.getElem?_eq_some_iff.mp hcell).1
  have hle := hstores.length_le
  have hcolumn := happly blocks heap fun block hblock =>
    (hstores.inside block hblock).2
  rw [hstores.apply_eq _ (by simp)] at hcolumn
  have hget := congrArg (fun column => column[job.offset + k]?) hcolumn
  simp only [getElem?_columnOf _ _ (show job.offset + k <
    job.offset + job.rows by omega)] at hget
  rw [getElem?_overwrite_inside _ _ _ _ (by simp) hk, hcell] at hget
  exact Option.some.inj hget

end Columns

section Positions

variable {native : NativeReader} {chunk : Nat}
  {groups : List GroupPlan} {targets : List TargetColumn}
  {main : MainPass}

/-- A thread of disjoint ones has the last word on where it stores. -/
theorem runStores_last
    {threads : List (List Action)} {actions : List Action}
    (hexclusive : ∀ place,
      ExclusiveTo (storesTo Action.store place) threads)
    (hmem : actions ∈ threads)
    (heap : Heap) :
    ∃ heap', runStores Action.store heap threads.flatten =
      runStores Action.store heap' actions := by
  obtain ⟨before, after, rfl⟩ := List.append_of_mem hmem
  have hperm : (before ++ actions :: after).Perm
      ((before ++ after) ++ [actions]) :=
    List.perm_middle.trans (List.perm_append_singleton _ _).symm
  refine ⟨runStores Action.store heap (before ++ after).flatten, ?_⟩
  rw [runStores_flatten_perm hperm hexclusive, List.flatten_append,
    runStores_append, List.flatten_singleton]

/-- Row `k` of a task is at its offset plus `k`. -/
theorem filledHeap_task
    {tasks : List Task} {task : Task} {k : Nat} {cell : RCell}
    (hexclusive : ∀ place, ExclusiveTo (storesTo Action.store place)
      (fineThreads native tasks main))
    (htask : task ∈ tasks)
    (hcell : (columnTaskRun native task).cells[k]? = some cell) :
    filledHeap native targets tasks main
      (task.selectionIndex, task.dstOffset + k) = cell := by
  obtain ⟨t, ht⟩ := List.mem_iff_getElem?.mp htask
  have hmem : taskActions native t task ∈ fineThreads native tasks main :=
    List.mem_cons_of_mem _
      (List.mem_map.mpr ⟨(t, task), mem_enumerate.mpr ht, rfl⟩)
  obtain ⟨heap, hheap⟩ := runStores_last hexclusive hmem (freshHeap targets)
  rw [filledHeap, hheap, taskActions, List.cons_append, ←
    List.singleton_append, runStores_append, runStores_append]
  exact runStores_putCells heap hcell

/-- The stores of one chunk of the main-thread pass. -/
def stepActions (step : MainStep) : List Action :=
  step.2.flatMap fun block => putCells step.1.1 block.1 block.2

theorem stepActions_spares
    {step : MainStep} {place : Nat × Nat}
    (hfills : FillsTo step.1.2 step.1.2.rows step.2)
    (h : ¬ InRows step.1.1 step.1.2.offset step.1.2.rows place) :
    Spares place (stepActions step) := by
  obtain ⟨cells, -, hstores⟩ := hfills
  intro a ha
  obtain ⟨block, hblock, ha⟩ := List.mem_flatMap.mp ha
  have hinside := hstores.inside block hblock
  refine putCells_spares ?_ a ha
  intro hcolumn
  by_contra hplace
  exact h ⟨hcolumn, by omega, by omega⟩

/-- Also the chunks of the main-thread pass store to disjoint places. -/
theorem steps_exclusive
    {steps : List MainStep}
    (hgroups : groups.Pairwise fun first second =>
      first.offset + first.rows ≤ second.offset)
    (htargets : (targets.map TargetColumn.index).Nodup)
    (hjobs : steps.map Prod.fst = mainJobs groups targets)
    (hfills : ∀ step ∈ steps, FillsTo step.1.2 step.1.2.rows step.2)
    (place : Nat × Nat) :
    ExclusiveTo (storesTo Action.store place) (steps.map stepActions) := by
  have hpairs : steps.Pairwise fun first second =>
      ∀ place,
        ¬ InRows first.1.1 first.1.2.offset first.1.2.rows place ∨
          ¬ InRows second.1.1 second.1.2.offset second.1.2.rows place := by
    have h : (mainJobs groups targets).Pairwise fun first second =>
        ∀ place,
          ¬ InRows first.1 first.2.offset first.2.rows place ∨
            ¬ InRows second.1 second.2.offset second.2.rows place := by
      rw [mainJobs_eq, List.pairwise_map]
      exact planChunks_pairwise hgroups (nodup_filter_index _ htargets)
    rw [← hjobs, List.pairwise_map] at h
    exact h
  rw [ExclusiveTo, List.pairwise_map]
  refine hpairs.imp_of_mem ?_
  intro first second hfirst hsecond hdisjoint
  rcases hdisjoint place with hfree | hfree
  · exact Or.inl (stepActions_spares (hfills first hfirst) hfree)
  · exact Or.inr (stepActions_spares (hfills second hsecond) hfree)

/-- Row `k` of a chunk of the main-thread pass is at its offset plus `k`. -/
theorem filledHeap_main
    {group : GroupPlan} {target : TargetColumn}
    (hchunk : 0 < chunk)
    (hsupported : ∀ target ∈ targets, target.column.spec.Supported)
    (hgroups : groups.Pairwise fun first second =>
      first.offset + first.rows ≤ second.offset)
    (htargets : (targets.map TargetColumn.index).Nodup)
    (hmain : mainPass native chunk (mainJobs groups targets) = .ok main)
    (hgroup : group ∈ groups)
    (htarget : target ∈ targets)
    (honMain : target.onMain = true) :
    ∃ flags blocks flags' cells,
      collectMainChunk native (target.job group) chunk flags =
          .ok (blocks, flags') ∧
        Stores (target.job group) blocks cells ∧
        cells.length = group.rows ∧
        ∀ k cell, cells[k]? = some cell →
          filledHeap native targets (numericTasks groups targets) main
            (target.index, group.offset + k) = cell := by
  obtain ⟨steps, hjobs, hreads, hblocks⟩ := mainPass_steps hmain
  have hjob : (target.index, target.job group) ∈ mainJobs groups targets := by
    simp only [mainJobs, List.mem_flatMap, List.mem_map, List.mem_filter]
    exact ⟨group, hgroup, target, ⟨htarget, honMain⟩, rfl⟩
  have hfills : ∀ step ∈ steps, FillsTo step.1.2 step.1.2.rows step.2 := by
    intro step hstep
    obtain ⟨flags, flags', hread⟩ := hreads step hstep
    refine collectMainChunk_fills hchunk ?_ hread
    have hmem : step.1 ∈ mainJobs groups targets := by
      rw [← hjobs]
      exact List.mem_map_of_mem hstep
    simp only [mainJobs, List.mem_flatMap, List.mem_map, List.mem_filter]
      at hmem
    obtain ⟨_, -, target', ⟨htarget', -⟩, heq⟩ := hmem
    rw [← heq]
    exact hsupported target' htarget'
  rw [← hjobs] at hjob
  obtain ⟨⟨entry, blocks⟩, hstep, rfl⟩ := List.mem_map.mp hjob
  obtain ⟨flags, flags', hread⟩ := hreads _ hstep
  obtain ⟨cells, hlen, hstores⟩ := hfills _ hstep
  refine ⟨flags, blocks, flags', cells, hread, hstores, hlen, ?_⟩
  intro k cell hcell
  -- the main thread's chunks and the tasks, each as a thread of its own
  have hfine := fineThreads_exclusive hgroups htargets hmain
  have hactions : main.actions = (steps.map stepActions).flatten := by
    rw [MainPass.actions, hblocks, ← List.flatMap_def, List.flatMap_assoc]
    simp only [List.flatMap_map]
    rfl
  let threads := steps.map stepActions ++
    (enumerate (numericTasks groups targets)).map fun entry =>
      taskActions native entry.1 entry.2
  have hexclusive (place : Nat × Nat) :
      ExclusiveTo (storesTo Action.store place) threads := by
    obtain ⟨hcross, htasks⟩ := List.pairwise_cons.mp (hfine place)
    refine List.pairwise_append.mpr
      ⟨steps_exclusive hgroups htargets hjobs hfills place, htasks, ?_⟩
    intro step hstep task htask
    refine (hcross task htask).imp_left ?_
    intro hfree a ha
    exact hfree a (by rw [hactions]; exact List.mem_flatten_of_mem hstep ha)
  have hmem : stepActions ((target.index, target.job group), blocks) ∈
      threads :=
    List.mem_append_left _ (List.mem_map_of_mem hstep)
  obtain ⟨heap, hheap⟩ := runStores_last hexclusive hmem (freshHeap targets)
  have hflatten :
      (fineThreads native (numericTasks groups targets) main).flatten =
        threads.flatten := by
    rw [fineThreads, List.flatten_cons, List.flatten_append, hactions]
  rw [filledHeap, hflatten, hheap]
  exact runStores_chunk heap hstores hcell

end Positions

section Schedules

variable {file : ParquetFile} {ctx : CollectContext} {handle : Handle}
  {targets : List TargetColumn} {run : List Action}
  {result : Except ReadError ReadResult}

/-- A read of a file: its selection was accepted for the file, and its row
groups are the selected ones. -/
structure CollectContext.Reads (ctx : CollectContext) (file : ParquetFile) :
    Prop where
  selected : ∃ columns rowGroups columnKinds int64Option,
    prepareSelection file columns rowGroups columnKinds int64Option =
      .ok ctx.selection
  groups_eq : ctx.groups = ctx.selection.groups file

theorem CollectContext.Reads.valid
    (h : ctx.Reads file) :
    ctx.selection.Valid file := by
  obtain ⟨columns, rowGroups, columnKinds, int64Option, hsel⟩ := h.selected
  exact prepareSelection_ok hsel

/-- Rows of the selected groups. -/
def rowsOf (groups : List (Nat × RowGroup)) : Nat :=
  (groups.map fun entry => entry.2.numRows.toNat).sum

theorem rowsOf_cons
    (entry : Nat × RowGroup) (rest : List (Nat × RowGroup)) :
    rowsOf (entry :: rest) = entry.2.numRows.toNat + rowsOf rest := by
  simp [rowsOf]

theorem rowsOf_append
    (first second : List (Nat × RowGroup)) :
    rowsOf (first ++ second) = rowsOf first + rowsOf second := by
  simp [rowsOf]

theorem CollectContext.Reads.totalRows
    (h : ctx.Reads file) :
    ctx.selection.totalRows.toNat = rowsOf ctx.groups := by
  have hvalid := h.valid
  have hsum : ∀ groups : List (Nat × RowGroup),
      (∀ entry ∈ groups, 0 ≤ entry.2.numRows) →
      (groups.map fun entry => entry.2.numRows).sum = (rowsOf groups : ℤ) := by
    intro groups hpos
    induction groups with
    | nil =>
        rfl
    | cons entry rest ih =>
        have hrest := ih fun entry hentry => hpos entry (by simp [hentry])
        have hentry := hpos entry (by simp)
        rw [List.map_cons, List.sum_cons, hrest, rowsOf_cons, Nat.cast_add]
        omega
  rw [hvalid.totalRows, h.groups_eq, hsum _ hvalid.numRows]
  exact Int.toNat_natCast _

theorem groupPlans_eq_nil
    {groups : List (Nat × RowGroup)} (offset : Nat)
    (h : rowsOf groups = 0) :
    groupPlans offset groups = [] := by
  induction groups with
  | nil =>
      rfl
  | cons entry rest ih =>
      rw [rowsOf_cons] at h
      rw [groupPlans, if_pos (by omega)]
      exact ih (by omega)

theorem CollectContext.Reads.plans_eq_nil
    (h : ctx.Reads file)
    (hrows : ctx.selection.totalRows = 0) :
    ctx.plans = [] := by
  apply groupPlans_eq_nil
  rw [← h.totalRows, hrows]
  rfl

theorem CollectContext.Reads.supported
    (h : ctx.Reads file)
    (halloc : allocateResult ctx.selection = .ok targets) :
    ∀ target ∈ targets, target.column.spec.Supported := by
  intro target htarget
  have hcolumn : target.column ∈ ctx.selection.columns := by
    rw [← (allocateResult_ok halloc).2.1]
    exact List.mem_map_of_mem htarget
  obtain ⟨_, _, _, -, -, -, hsupported⟩ := h.valid.columns _ hcolumn
  exact hsupported

theorem chunk_pos (ctx : CollectContext) : 0 < ctx.chunk := by
  unfold CollectContext.chunk
  omega

theorem nodup_targets
    (halloc : allocateResult ctx.selection = .ok targets) :
    (targets.map TargetColumn.index).Nodup := by
  rw [(allocateResult_ok halloc).1]
  exact List.nodup_range

theorem target_getElem?
    {target : TargetColumn}
    (halloc : allocateResult ctx.selection = .ok targets)
    (htarget : target ∈ targets) :
    targets[target.index]? = some target := by
  obtain ⟨i, hi⟩ := List.mem_iff_getElem?.mp htarget
  have hindex := congrArg (fun indexes => indexes[i]?)
    (allocateResult_ok halloc).1
  simp only [List.getElem?_map, hi, Option.map_some] at hindex
  obtain ⟨_, hget⟩ := List.getElem?_eq_some_iff.mp hindex.symm
  rw [List.getElem_range] at hget
  rw [← hget, hi]

/-- A task number is that of one row group and numeric column only. -/
theorem tasks_injective
    (halloc : allocateResult ctx.selection = .ok targets)
    {t t' : Nat} {task : Task}
    (hrows : 0 < task.rows)
    (ht : (ctx.tasks targets)[t]? = some task)
    (ht' : (ctx.tasks targets)[t']? = some task) :
    t = t' := by
  have hpairs := numericTasks_pairwise
    (groupPlans_pairwise 0 ctx.groups).2 (nodup_targets halloc)
  have hcovers : task.Covers (task.selectionIndex, task.dstOffset) :=
    ⟨rfl, by simp, by simp [hrows]⟩
  obtain ⟨hlt, hget⟩ := List.getElem?_eq_some_iff.mp ht
  obtain ⟨hlt', hget'⟩ := List.getElem?_eq_some_iff.mp ht'
  rw [List.pairwise_iff_getElem] at hpairs
  by_contra hne
  rcases Nat.lt_or_gt_of_ne hne with h | h
  · rcases hpairs t t' hlt hlt' h (task.selectionIndex, task.dstOffset) with
      hfree | hfree
    · exact hfree (hget ▸ hcovers)
    · exact hfree (hget' ▸ hcovers)
  · rcases hpairs t' t hlt' hlt h (task.selectionIndex, task.dstOffset) with
      hfree | hfree
    · exact hfree (hget' ▸ hcovers)
    · exact hfree (hget ▸ hcovers)

/-- What reading a chunk produces for its rows. -/
def ChunkCells
    (ctx : CollectContext) (target : TargetColumn) (plan : GroupPlan)
    (cells : List RCell) : Prop :=
  if target.onMain then
    ∃ flags blocks flags',
      collectMainChunk ctx.native (target.job plan) ctx.chunk flags =
          .ok (blocks, flags') ∧
        Stores (target.job plan) blocks cells
  else
    cells = (columnTaskRun ctx.native (target.task plan)).cells

/-- The heap holds the rows of every selected chunk at the chunk's offset. -/
def Placed
    (ctx : CollectContext) (targets : List TargetColumn) (heap : Heap) :
    Prop :=
  ∀ plan ∈ ctx.plans, ∀ target ∈ targets, ∃ cells,
    ChunkCells ctx target plan cells ∧ cells.length = plan.rows ∧
      ∀ k cell, cells[k]? = some cell →
        heap (target.index, plan.offset + k) = cell

theorem filledHeap_placed
    {main : MainPass}
    (hctx : ctx.Reads file)
    (halloc : allocateResult ctx.selection = .ok targets)
    (hmain : ctx.main targets = .ok main)
    (hok : ∀ task ∈ ctx.tasks targets,
      (columnTaskRun ctx.native task).failure = none) :
    Placed ctx targets
      (filledHeap ctx.native targets (ctx.tasks targets) main) := by
  intro plan hplan target htarget
  cases honMain : target.onMain with
  | true =>
      obtain ⟨flags, blocks, flags', cells, hread, hstores, hlen, hplaced⟩ :=
        filledHeap_main (chunk_pos ctx) (hctx.supported halloc)
          (groupPlans_pairwise 0 ctx.groups).2 (nodup_targets halloc) hmain
          hplan htarget honMain
      refine ⟨cells, ?_, hlen, hplaced⟩
      rw [ChunkCells, if_pos honMain]
      exact ⟨flags, blocks, flags', hread, hstores⟩
  | false =>
      have htask : target.task plan ∈ ctx.tasks targets :=
        mem_numericTasks.mpr ⟨plan, hplan, target, htarget, honMain, rfl⟩
      refine ⟨_, ?_, (length_columnTaskRun ctx.native
        (numeric_of_mem_numericTasks htask)).2 (hok _ htask), ?_⟩
      · rw [ChunkCells, if_neg (by simp [honMain])]
      · intro k cell hcell
        exact filledHeap_task (context_exclusive halloc hmain) htask hcell

/-- What a collect that returns gives back. -/
theorem CollectRun.ok_frame
    {r : ReadResult}
    (hctx : ctx.Reads file)
    (h : CollectRun ctx handle run (.ok r)) :
    ∃ targets heap,
      allocateResult ctx.selection = .ok targets ∧
        r.frame = heapFrame targets (rowsOf ctx.groups) heap ∧
        Placed ctx targets heap := by
  have hok := h.noTaskFails hctx.plans_eq_nil
  rw [← hctx.totalRows]
  generalize hresult : Except.ok r = result at h
  cases h with
  | tooManyRows _ | unsupported _ _ =>
      cases hresult
  | @empty targets _ halloc hempty =>
      cases hresult
      refine ⟨targets, freshHeap targets, halloc, rfl, ?_⟩
      intro plan hplan target htarget
      rcases hempty with hrows | hcolumns
      · rw [hctx.plans_eq_nil hrows] at hplan
        cases hplan
      · have hmap := (allocateResult_ok halloc).2.1
        rw [hcolumns, List.map_eq_nil_iff] at hmap
        rw [hmap] at htarget
        cases htarget
  | @read targets _ _ _ halloc _ _ hrun =>
      have hserial := hrun.result_eq halloc (hok _ halloc)
      rw [← hresult, serialResult] at hserial
      obtain ⟨main, hmain, hend⟩ := bind_eq_ok_iff.mp hserial.symm
      rw [collectEnd, firstFailure_eq_none_iff.mpr (hok _ halloc)] at hend
      cases hend
      exact ⟨targets, _, halloc, rfl,
        filledHeap_placed hctx halloc hmain (hok _ halloc)⟩

theorem mem_range_count_le (n t : Nat) :
    (List.range n).count t ≤ 1 :=
  List.nodup_iff_count_le_one.mp List.nodup_range t

theorem CollectRun.count_start_le
    (h : CollectRun ctx handle run result) (t : Nat) :
    run.count (.start t) ≤ 1 := by
  cases h with
  | tooManyRows _ | unsupported _ _ | empty _ _ _ =>
      simp
  | read _ _ _ _ hrun =>
      exact (hrun.count_start_le t).trans (mem_range_count_le _ t)

/-- In a run that returns, every selected non-empty row group has one task for
every numeric column, started once. -/
theorem CollectRun.task_started
    {r : ReadResult} {plan : GroupPlan} {target : TargetColumn}
    (hctx : ctx.Reads file)
    (h : CollectRun ctx handle run (.ok r))
    (halloc : allocateResult ctx.selection = .ok targets)
    (hplan : plan ∈ ctx.plans)
    (hrows : 0 < plan.rows)
    (htarget : target ∈ targets)
    (hnumeric : target.onMain = false) :
    ∃ t, (∀ t', (ctx.tasks targets)[t']? = some (target.task plan) ↔
        t' = t) ∧
      run.count (.start t) = 1 := by
  have htask : target.task plan ∈ ctx.tasks targets :=
    mem_numericTasks.mpr ⟨plan, hplan, target, htarget, hnumeric, rfl⟩
  obtain ⟨t, ht⟩ := List.mem_iff_getElem?.mp htask
  obtain ⟨hlt, -⟩ := List.getElem?_eq_some_iff.mp ht
  refine ⟨t, fun t' => ⟨fun ht' => tasks_injective halloc hrows ht' ht,
    fun heq => heq ▸ ht⟩, ?_⟩
  generalize hresult : Except.ok r = result at h
  cases h with
  | tooManyRows _ | unsupported _ _ =>
      cases hresult
  | empty _ halloc' hempty =>
      rcases hempty with hrows' | hcolumns
      · rw [hctx.plans_eq_nil hrows'] at hplan
        cases hplan
      · have hmap := (allocateResult_ok halloc).2.1
        rw [hcolumns, List.map_eq_nil_iff] at hmap
        rw [hmap] at htarget
        cases htarget
  | read _ halloc' _ _ hrun =>
      rw [halloc] at halloc'
      cases halloc'
      subst hresult
      rw [hrun.count_start_of_ok t]
      exact List.count_eq_one_of_mem List.nodup_range
        (List.mem_range.mpr hlt)

theorem CollectRun.reader_exclusive
    {part : List Action} {opened t t' : Nat}
    (h : CollectRun ctx handle run result)
    (halloc : allocateResult ctx.selection = .ok targets)
    (hmode : ctx.mode handle targets = .lanes opened)
    (hpart : part <+: run)
    (ht : Running part t)
    (ht' : Running part t')
    (hreader : taskReader (.lanes opened) t =
      taskReader (.lanes opened) t') :
    t = t' := by
  cases h with
  | tooManyRows _ | unsupported _ _ | empty _ _ _ =>
      rw [List.prefix_nil] at hpart
      subst hpart
      exact absurd rfl ht
  | read _ halloc' _ _ hrun =>
      rw [halloc] at halloc'
      cases halloc'
      exact hrun.reader_exclusive hmode hpart ht ht'
        (Option.some.inj hreader)

theorem plans_split
    {before after : List (Nat × RowGroup)} {index : Nat} {group : RowGroup}
    (hsplit : ctx.groups = before ++ (index, group) :: after)
    (hrows : 0 < group.numRows) :
    ∃ rest, ctx.plans = groupPlans 0 before ++
      ⟨index, group.numRows.toNat, rowsOf before⟩ :: rest := by
  have h := groupPlans_append_cons 0 before after index hrows
  rwa [Nat.zero_add, ← hsplit] at h

theorem plan_mem
    {before after : List (Nat × RowGroup)} {index : Nat} {group : RowGroup}
    (hsplit : ctx.groups = before ++ (index, group) :: after)
    (hrows : 0 < group.numRows) :
    ⟨index, group.numRows.toNat, rowsOf before⟩ ∈ ctx.plans := by
  obtain ⟨rest, hplans⟩ := plans_split hsplit hrows
  rw [hplans]
  simp

/-- How a collect is scheduled. A task starts at most once, and exactly once
when the collect returns; in lane mode a reader serves one task at a time, at
every moment of the run; when no task fails, the serial inline run gives the
same result; and row `k` of a selected row group is at the number of selected
rows before the group, plus `k`. -/
theorem collect_schedule_independent
    (hctx : ctx.Reads file)
    (hrun : CollectRun ctx handle run result) :
    (∀ t, run.count (.start t) ≤ 1) ∧
      (∀ r targets, result = .ok r →
        allocateResult ctx.selection = .ok targets →
        ∀ before index group after,
          ctx.groups = before ++ (index, group) :: after →
          0 < group.numRows →
          ∀ target ∈ targets, target.onMain = false →
            ∃ t, (∀ t', (ctx.tasks targets)[t']? =
                  some (target.task
                    ⟨index, group.numRows.toNat, rowsOf before⟩) ↔
                t' = t) ∧
              run.count (.start t) = 1) ∧
      (∀ targets opened part t t',
        allocateResult ctx.selection = .ok targets →
        ctx.mode handle targets = .lanes opened →
        part <+: run → Running part t → Running part t' →
        taskReader (.lanes opened) t = taskReader (.lanes opened) t' →
        t = t') ∧
      (NoTaskFails ctx →
        (∃ run', CollectRun ctx { handle with threads := 1 } run' result) ∧
          ∀ run' result',
            CollectRun ctx { handle with threads := 1 } run' result' →
            result' = result) ∧
      (∀ r, result = .ok r → ∃ targets,
        allocateResult ctx.selection = .ok targets ∧
          ∀ before index group after,
            ctx.groups = before ++ (index, group) :: after →
            0 < group.numRows →
            ∀ target ∈ targets, ∃ column cells,
              r.frame.columns[target.index]? = some column ∧
                ChunkCells ctx target
                  ⟨index, group.numRows.toNat, rowsOf before⟩ cells ∧
                (cells.length : ℤ) = group.numRows ∧
                ∀ k < cells.length,
                  column.cells[rowsOf before + k]? = cells[k]?) := by
  refine ⟨hrun.count_start_le, ?_, ?_, ?_, ?_⟩
  · rintro r targets rfl halloc before index group after hsplit hrows target
      htarget hnumeric
    exact hrun.task_started hctx halloc (plan_mem hsplit hrows)
      (by simpa using hrows) htarget hnumeric
  · intro targets opened part t t' halloc hmode hpart ht ht' hreader
    exact hrun.reader_exclusive halloc hmode hpart ht ht' hreader
  · intro hok
    have hresult := hrun.result_eq hok
    constructor
    · obtain ⟨run', result', hrun'⟩ := exists_serial_run ctx
        (show ({ handle with threads := 1 } : Handle).threads = 1 from rfl)
      rw [hresult, ← hrun'.result_eq hok]
      exact ⟨run', hrun'⟩
    · intro run' result' hrun'
      rw [hresult, hrun'.result_eq hok]
  · rintro r rfl
    obtain ⟨targets, heap, halloc, hframe, hplaced⟩ := hrun.ok_frame hctx
    refine ⟨targets, halloc, ?_⟩
    intro before index group after hsplit hrows target htarget
    obtain ⟨cells, hcells, hlen, hput⟩ :=
      hplaced _ (plan_mem hsplit hrows) target htarget
    refine ⟨⟨target.sexptype,
      columnOf heap target.index (rowsOf ctx.groups)⟩, cells, ?_, hcells,
      ?_, ?_⟩
    · rw [hframe, heapFrame, List.getElem?_map,
        target_getElem? halloc htarget]
      rfl
    · simp only at hlen
      omega
    · intro k hk
      have htotal : rowsOf ctx.groups =
          rowsOf before + (group.numRows.toNat + rowsOf after) := by
        rw [hsplit, rowsOf_append, rowsOf_cons]
      simp only at hlen
      rw [getElem?_columnOf _ _ (by omega), List.getElem?_eq_getElem hk,
        hput k _ (List.getElem?_eq_getElem hk)]

end Schedules

section TwoColumns

/-- An INT32 leaf without nulls. -/
def plainLeaf (name : String) : Leaf :=
  ⟨[name], .int32, 0, 0, 0, none⟩

/-- Two INT32 columns and one row. -/
def pairFile : ParquetFile where
  leaves := [plainLeaf "x", plainLeaf "y"]
  rowGroups := [⟨1, fun _ => [.present (.int32 7)]⟩]
  chunk_length := by simp
  chunk_fits := by
    intro group hgroup index leaf hleaf _ row hrow
    have hplain : ∃ name, leaf = plainLeaf name := by
      rcases index with _ | _ | _ <;> simp at hleaf <;> exact ⟨_, hleaf.symm⟩
    obtain ⟨name, rfl⟩ := hplain
    obtain rfl := List.mem_singleton.mp hgroup
    obtain rfl := List.mem_singleton.mp hrow
    constructor <;> simp [plainLeaf, Leaf.column, PhysValue.type]

def pairSelection : Selection :=
  ⟨[⟨0, (plainLeaf "x").column .default .double⟩,
    ⟨1, (plainLeaf "y").column .default .double⟩], [true], 1⟩

/-- A reader of which only some columns decode. -/
def pairNative (decodes : Nat → Bool) : NativeReader :=
  ⟨fun _ _ column => .ok
      { rowReader ((plainLeaf "x").column .default .double)
          [.present (.int32 7)] with
        readBatch := fun position want =>
          if decodes column then
            (rowReader ((plainLeaf "x").column .default .double)
              [.present (.int32 7)]).readBatch position want
          else
            none },
    fun _ _ => none⟩

def pairContext (decodes : Nat → Bool) : CollectContext :=
  ⟨pairNative decodes, pairSelection, pairSelection.groups pairFile, 1024⟩

theorem pairContext_reads (decodes : Nat → Bool) :
    (pairContext decodes).Reads pairFile := by
  refine ⟨⟨none, none, [0, 0], .double, ?_⟩, rfl⟩
  rfl

def pairTargets : List TargetColumn :=
  [⟨0, ⟨0, (plainLeaf "x").column .default .double⟩, .intsxp⟩,
    ⟨1, ⟨1, (plainLeaf "y").column .default .double⟩, .intsxp⟩]

theorem pairContext_alloc (decodes : Nat → Bool) :
    allocateResult (pairContext decodes).selection = .ok pairTargets :=
  rfl

/-- A mapped file read with two threads. -/
def mappedHandle : Handle :=
  ⟨2, true, true, 0⟩

/-- A buffered file read with one thread. -/
def serialHandle : Handle :=
  ⟨1, false, false, 0⟩

theorem mappedHandle_mode (decodes : Nat → Bool) :
    (pairContext decodes).mode mappedHandle pairTargets = .pool :=
  rfl

theorem pairContext_main (decodes : Nat → Bool) :
    (pairContext decodes).main pairTargets =
      .ok ⟨[], fun _ => Flags.none⟩ :=
  rfl

theorem pairContext_collect :
    ∃ run r,
      CollectRun (pairContext fun _ => true) mappedHandle run (.ok r) := by
  refine ⟨_, _, .read (by decide) (pairContext_alloc _) (by decide)
    (by simp [pairContext, pairSelection])
    (.parallelDone (by rw [mappedHandle_mode]; decide)
      (pairContext_main _) (Interleaving.sequential _))⟩

/-- Both tasks run on the pool, and the serial run gives the same result. -/
theorem collect_schedule_independent_pair :
    ∃ run r,
      CollectRun (pairContext fun _ => true) mappedHandle run (.ok r) ∧
        run.count (.start 1) ≤ 1 ∧
        ∃ run', CollectRun (pairContext fun _ => true)
          { mappedHandle with threads := 1 } run' (.ok r) := by
  obtain ⟨run, r, hrun⟩ := pairContext_collect
  have h := collect_schedule_independent (pairContext_reads fun _ => true)
    hrun
  exact ⟨run, r, hrun, h.1 1,
    (h.2.2.2.1 (hrun.noTaskFails
      (pairContext_reads fun _ => true).plans_eq_nil)).1⟩

/-- Column `x` does not decode: its task fails, the error is raised, and the
task of column `y` is never started. -/
theorem collect_task_not_started :
    (pairContext fun column => column == 1).Reads pairFile ∧
      ∃ run e,
        CollectRun (pairContext fun column => column == 1) serialHandle run
            (.error e) ∧
          ((pairContext fun column => column == 1).tasks
            pairTargets).length = 2 ∧
          run.count (.start 1) = 0 := by
  refine ⟨pairContext_reads _, _, _, .read (by decide) (pairContext_alloc _)
    (by decide) (by simp [pairContext, pairSelection])
    (.inlineFailed (executionMode_serial rfl) rfl), rfl, ?_⟩
  decide +kernel

end TwoColumns

end Read
end QioParquet
