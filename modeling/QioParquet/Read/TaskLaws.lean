import QioParquet.Read.Collect
import Mathlib.Tactic

/-!
# Where tasks write

A task puts at most one element into each row of its own row group in its own
column, and exactly one when it does not fail. Row groups occupy consecutive
ranges of the result, so no two tasks, and no task and the main thread, ever
put into the same place.
-/

namespace QioParquet
namespace Read

open Lib

section Lengths

theorem length_numericLoop {α : Type}
    {c : ColumnSpec} {b : DenseBatch}
    {load : PhysValue ByteArrayRef → Except ReadError α}
    {na : RCell} {convert : α → RCell} {cells : List RCell}
    (h : numericLoop c b load na convert = .ok cells) :
    cells.length = b.count := by
  rw [length_scatterLoop h, b.length_presence]

/-- A numeric batch is placed whole. -/
theorem length_scatterNumericRaw
    {c : ColumnSpec} {b : DenseBatch} {flags flags' : Flags}
    {cells : List RCell}
    (hbytes : c.type ≠ .byteArray)
    (hfixed : c.type ≠ .fixedLenByteArray)
    (h : scatterNumericRaw c b flags = .ok (cells, flags')) :
    cells.length = b.count := by
  unfold scatterNumericRaw at h
  split at h
  case h_7 htype =>
    exact absurd htype hbytes
  case h_8 htype =>
    exact absurd htype hfixed
  case h_2 =>
    split_ifs at h <;>
    · simp only [bind_eq_ok_iff, pure_eq_ok, Except.ok.injEq,
        Prod.mk.injEq] at h
      obtain ⟨found, hfound, rfl, -⟩ := h
      exact length_numericLoop hfound
  case h_3 =>
    split at h <;>
    · simp only [bind_eq_ok_iff, pure_eq_ok, Except.ok.injEq,
        Prod.mk.injEq] at h
      obtain ⟨found, hfound, rfl, -⟩ := h
      exact length_numericLoop hfound
  all_goals
    simp only [bind_eq_ok_iff, pure_eq_ok, Except.ok.injEq,
      Prod.mk.injEq] at h
    obtain ⟨found, hfound, rfl, -⟩ := h
    exact length_numericLoop hfound

/-- What the batch loop has put in place when it ends. -/
theorem length_taskLoop
    (task : Task) (r : ColumnReader) {width : Nat}
    (hwidth : 0 < width)
    (hnumeric : needsMainThread task.spec.type task.spec.kind = false)
    (start remaining : Nat) :
    ∀ outcome : TaskOutcome,
      outcome.cells.length = start →
      (taskLoop task r (slices width start remaining)
          outcome).cells.length ≤ start + remaining ∧
        ((taskLoop task r (slices width start remaining)
            outcome).failure = none →
          (taskLoop task r (slices width start remaining)
            outcome).cells.length = start + remaining) := by
  simp only [needsMainThread, Bool.or_eq_false_iff, beq_eq_false_iff_ne]
    at hnumeric
  refine slices_induction hwidth
    (motive := fun start remaining => ∀ outcome : TaskOutcome,
      outcome.cells.length = start →
      (taskLoop task r (slices width start remaining)
          outcome).cells.length ≤ start + remaining ∧
        ((taskLoop task r (slices width start remaining)
            outcome).failure = none →
          (taskLoop task r (slices width start remaining)
            outcome).cells.length = start + remaining)) ?_ ?_ start remaining
  · intro start outcome hlen
    simp [taskLoop, hlen]
  · intro start remaining hpos ih outcome hlen
    rw [slices_pos hwidth hpos, taskLoop]
    cases hread : r.readBatch start (min remaining width) with
    | none =>
        simp [hlen]
    | some b =>
        by_cases hcount : b.count = min remaining width
        swap
        · simp [hcount, hlen]
        cases hscatter : scatterNumericRaw task.spec b outcome.flags with
        | error e =>
            simp [hcount, hlen, hscatter]
        | ok result =>
            obtain ⟨cells, flags⟩ := result
            have hcells := length_scatterNumericRaw hnumeric.1.2 hnumeric.2
              hscatter
            by_cases hcheck :
                checkElements .undefinedBehaviour task.sexptype cells =
                  .ok ()
            · have hnext := ih
                { outcome with
                  cells := outcome.cells ++ cells
                  flags := flags }
                (by simp [hlen, hcells, hcount])
              have hsum :
                  start + min remaining width +
                      (remaining - min remaining width) =
                    start + remaining := by
                omega
              rw [hsum] at hnext
              simpa [hcount, hscatter, hcheck] using hnext
            · simp [hcount, hlen, hscatter, hcheck]

/-- A task puts at most one element into each of its rows, and exactly one
when it does not fail. -/
theorem length_columnTaskRun
    (native : NativeReader) {task : Task}
    (hnumeric : needsMainThread task.spec.type task.spec.kind = false) :
    (columnTaskRun native task).cells.length ≤ task.rows ∧
      ((columnTaskRun native task).failure = none →
        (columnTaskRun native task).cells.length = task.rows) := by
  unfold columnTaskRun
  cases native.getColumn 0 task.rowGroup task.fileColumn with
  | error reason =>
      simp
  | ok r =>
      rcases Nat.eq_zero_or_pos task.rows with hzero | hpos
      · simp [hzero, taskLoop]
      · have hwidth : 0 < min task.rows taskBatch := by
          simp [taskBatch, hpos]
        simpa using length_taskLoop task r hwidth hnumeric 0 task.rows
          ⟨[], Flags.none, none⟩ rfl

end Lengths

section Places

/-- A place in some consecutive rows of a column. -/
def InRows (column offset rows : Nat) (place : Nat × Nat) : Prop :=
  place.1 = column ∧ offset ≤ place.2 ∧ place.2 < offset + rows

/-- The places of the result that belong to a task. -/
def Task.Covers (task : Task) (place : Nat × Nat) : Prop :=
  InRows task.selectionIndex task.dstOffset task.rows place

/-- The actions leave a place alone. -/
def Spares (place : Nat × Nat) (actions : List Action) : Prop :=
  ∀ a ∈ actions, storesTo Action.store place a = false

@[simp] theorem spares_nil (place : Nat × Nat) : Spares place [] := by
  simp [Spares]

theorem spares_append
    {place : Nat × Nat} {first second : List Action} :
    Spares place (first ++ second) ↔
      Spares place first ∧ Spares place second := by
  simp [Spares, or_imp, forall_and]

theorem mem_putCells
    {column offset : Nat} {cells : List RCell} {a : Action} :
    a ∈ putCells column offset cells ↔
      ∃ k cell, cells[k]? = some cell ∧ a = .put column (offset + k) cell := by
  rw [putCells, List.mem_mapIdx]
  constructor
  · rintro ⟨k, hk, rfl⟩
    exact ⟨k, cells[k], List.getElem?_eq_getElem hk, rfl⟩
  · rintro ⟨k, cell, hcell, rfl⟩
    obtain ⟨hk, rfl⟩ := List.getElem?_eq_some_iff.mp hcell
    exact ⟨k, hk, rfl⟩

theorem putCells_spares
    {column offset : Nat} {cells : List RCell} {place : Nat × Nat}
    (h : place.1 = column →
      place.2 < offset ∨ offset + cells.length ≤ place.2) :
    Spares place (putCells column offset cells) := by
  intro a ha
  obtain ⟨k, cell, hcell, rfl⟩ := mem_putCells.mp ha
  obtain ⟨hk, -⟩ := List.getElem?_eq_some_iff.mp hcell
  simp only [storesTo, Action.store, decide_eq_false_iff_not]
  rintro rfl
  have := h rfl
  simp only at this
  omega

/-- A task leaves every place alone that is not its own. -/
theorem taskActions_spares
    {native : NativeReader} {t : Nat} {task : Task} {place : Nat × Nat}
    (hnumeric : needsMainThread task.spec.type task.spec.kind = false)
    (h : ¬ task.Covers place) :
    Spares place (taskActions native t task) := by
  have hlen := (length_columnTaskRun native hnumeric).1
  have hput : Spares place
      (putCells task.selectionIndex task.dstOffset
        (columnTaskRun native task).cells) := by
    apply putCells_spares
    intro hcolumn
    by_contra hinside
    exact h ⟨hcolumn, by omega, by omega⟩
  rw [taskActions, List.cons_append, ← List.singleton_append,
    ← List.append_assoc, spares_append, spares_append]
  refine ⟨⟨?_, hput⟩, ?_⟩ <;> simp [Spares, storesTo, Action.store]

end Places

section Layout

/-- Row groups follow one another in the result. -/
theorem groupPlans_pairwise
    (offset : Nat) (groups : List (Nat × RowGroup)) :
    (∀ group ∈ groupPlans offset groups, offset ≤ group.offset) ∧
      (groupPlans offset groups).Pairwise fun first second =>
        first.offset + first.rows ≤ second.offset := by
  induction groups generalizing offset with
  | nil =>
      simp [groupPlans]
  | cons entry rest ih =>
      rw [groupPlans]
      split
      · exact ih offset
      · obtain ⟨hafter, hrest⟩ := ih (offset + entry.2.numRows.toNat)
        constructor
        · intro group hgroup
          rcases List.mem_cons.mp hgroup with rfl | hgroup
          · exact Nat.le_refl offset
          · have := hafter group hgroup
            omega
        · exact List.pairwise_cons.mpr ⟨hafter, hrest⟩

/-- A row group starts after the rows of the selected ones before it. -/
theorem groupPlans_append_cons
    (offset : Nat) (before after : List (Nat × RowGroup))
    (index : Nat) {group : RowGroup}
    (hrows : 0 < group.numRows) :
    ∃ rest, groupPlans offset (before ++ (index, group) :: after) =
      groupPlans offset before ++
        ⟨index, group.numRows.toNat,
          offset + (before.map fun entry => entry.2.numRows.toNat).sum⟩ :: rest := by
  induction before generalizing offset with
  | nil =>
      exact ⟨groupPlans (offset + group.numRows.toNat) after, if_neg (by omega)⟩
  | cons entry before ih =>
      rw [List.cons_append, groupPlans, groupPlans]
      split
      · next hempty =>
          have hzero : entry.2.numRows.toNat = 0 := by omega
          simpa [hzero] using ih offset
      · obtain ⟨rest, hrest⟩ := ih (offset + entry.2.numRows.toNat)
        refine ⟨rest, ?_⟩
        rw [hrest, List.map_cons, List.sum_cons, Nat.add_assoc]
        rfl

theorem allocateFrom_ok
    (start : Nat) (columns : List SelectedColumn)
    {targets : List TargetColumn}
    (h : ((columns.zipIdx start).mapM fun entry => do
        let sexptype ← columnSexpType entry.1.spec.type entry.1.spec.kind
        return (⟨entry.2, entry.1, sexptype⟩ : TargetColumn)) =
      Except.ok targets) :
    targets.map TargetColumn.index = List.range' start columns.length ∧
      targets.map TargetColumn.column = columns ∧
      ∀ target ∈ targets,
        columnSexpType target.column.spec.type target.column.spec.kind =
          .ok target.sexptype := by
  induction columns generalizing start targets with
  | nil =>
      simp only [List.zipIdx_nil, List.mapM_nil, pure_eq_ok,
        Except.ok.injEq] at h
      simp [← h]
  | cons column rest ih =>
      simp only [List.zipIdx_cons, List.mapM_cons, bind_eq_ok_iff,
        pure_eq_ok, Except.ok.injEq] at h
      obtain ⟨_, ⟨sexptype, hsexptype, rfl⟩, others, hothers, rfl⟩ := h
      obtain ⟨hindex, hcolumn, htype⟩ := ih (start + 1) hothers
      refine ⟨?_, ?_, ?_⟩
      · simp [hindex, List.range'_succ]
      · simp [hcolumn]
      · intro target htarget
        rcases List.mem_cons.mp htarget with rfl | htarget
        · exact hsexptype
        · exact htype target htarget

/-- The result has the selected columns, in order. -/
theorem allocateResult_ok
    {sel : Selection} {targets : List TargetColumn}
    (h : allocateResult sel = .ok targets) :
    targets.map TargetColumn.index = List.range sel.columns.length ∧
      targets.map TargetColumn.column = sel.columns ∧
      ∀ target ∈ targets,
        columnSexpType target.column.spec.type target.column.spec.kind =
          .ok target.sexptype := by
  rw [List.range_eq_range']
  exact allocateFrom_ok 0 sel.columns h

/-- The chunks of some columns, row groups outermost. -/
def planChunks
    (groups : List GroupPlan) (targets : List TargetColumn) :
    List (GroupPlan × TargetColumn) :=
  groups.flatMap fun group => targets.map fun target => (group, target)

/-- Two chunks of a plan have no place in common. -/
theorem planChunks_pairwise
    {groups : List GroupPlan} {targets : List TargetColumn}
    (hgroups : groups.Pairwise fun first second =>
      first.offset + first.rows ≤ second.offset)
    (htargets : (targets.map TargetColumn.index).Nodup) :
    (planChunks groups targets).Pairwise fun first second =>
      ∀ place,
        ¬ InRows first.2.index first.1.offset first.1.rows place ∨
          ¬ InRows second.2.index second.1.offset second.1.rows place := by
  rw [planChunks, List.pairwise_flatMap]
  constructor
  · intro group _
    rw [List.pairwise_map]
    refine List.Pairwise.imp ?_ (List.pairwise_map.mp htargets)
    intro first second hne place
    by_contra hboth
    rw [not_or, not_not, not_not] at hboth
    obtain ⟨⟨hfirst, -⟩, hsecond, -⟩ := hboth
    exact hne (hfirst.symm.trans hsecond)
  · refine hgroups.imp ?_
    intro first second hle chunk hchunk chunk' hchunk' place
    obtain ⟨target, -, rfl⟩ := List.mem_map.mp hchunk
    obtain ⟨target', -, rfl⟩ := List.mem_map.mp hchunk'
    by_contra hboth
    rw [not_or, not_not, not_not] at hboth
    obtain ⟨⟨-, -, hfirst⟩, -, hsecond, -⟩ := hboth
    simp only at hfirst hsecond
    omega

theorem nodup_filter_index
    {targets : List TargetColumn} (p : TargetColumn → Bool)
    (htargets : (targets.map TargetColumn.index).Nodup) :
    ((targets.filter p).map TargetColumn.index).Nodup :=
  htargets.sublist (List.filter_sublist.map TargetColumn.index)

theorem numericTasks_eq
    (groups : List GroupPlan) (targets : List TargetColumn) :
    numericTasks groups targets =
      (planChunks groups
        (targets.filter fun target => !target.onMain)).map
          fun chunk => chunk.2.task chunk.1 := by
  simp [numericTasks, planChunks, List.map_flatMap, Function.comp_def]

theorem mainJobs_eq
    (groups : List GroupPlan) (targets : List TargetColumn) :
    mainJobs groups targets =
      (planChunks groups (targets.filter TargetColumn.onMain)).map
        fun chunk => (chunk.2.index, chunk.2.job chunk.1) := by
  simp [mainJobs, planChunks, List.map_flatMap, Function.comp_def]

/-- Two tasks of a plan have no place in common. -/
theorem numericTasks_pairwise
    {groups : List GroupPlan} {targets : List TargetColumn}
    (hgroups : groups.Pairwise fun first second =>
      first.offset + first.rows ≤ second.offset)
    (htargets : (targets.map TargetColumn.index).Nodup) :
    (numericTasks groups targets).Pairwise fun first second =>
      ∀ place, ¬ first.Covers place ∨ ¬ second.Covers place := by
  rw [numericTasks_eq, List.pairwise_map]
  exact planChunks_pairwise hgroups (nodup_filter_index _ htargets)

theorem mem_numericTasks
    {groups : List GroupPlan} {targets : List TargetColumn} {task : Task} :
    task ∈ numericTasks groups targets ↔
      ∃ group ∈ groups, ∃ target ∈ targets,
        target.onMain = false ∧ task = target.task group := by
  simp only [numericTasks, List.mem_flatMap, List.mem_map, List.mem_filter,
    Bool.not_eq_true']
  constructor
  · rintro ⟨group, hgroup, target, ⟨htarget, hmain⟩, rfl⟩
    exact ⟨group, hgroup, target, htarget, hmain, rfl⟩
  · rintro ⟨group, hgroup, target, htarget, hmain, rfl⟩
    exact ⟨group, hgroup, target, ⟨htarget, hmain⟩, rfl⟩

/-- Tasks are of numeric columns. -/
theorem numeric_of_mem_numericTasks
    {groups : List GroupPlan} {targets : List TargetColumn} {task : Task}
    (h : task ∈ numericTasks groups targets) :
    needsMainThread task.spec.type task.spec.kind = false := by
  obtain ⟨group, -, target, -, hmain, rfl⟩ := mem_numericTasks.mp h
  exact hmain

end Layout

section MainThread

/-- A chunk of the main-thread pass, and what reading it stored. -/
abbrev MainStep := (Nat × ChunkJob) × List Block

theorem mainStep_ok
    {native : NativeReader} {chunk : Nat} {state state' : MainPass}
    {entry : Nat × ChunkJob}
    (h : mainStep native chunk state entry = .ok state') :
    ∃ blocks flags,
      collectMainChunk native entry.2 chunk (state.flags entry.1) =
          .ok (blocks, flags) ∧
        state' = ⟨state.blocks ++ blocks.map fun block => (entry.1, block),
          Function.update state.flags entry.1 flags⟩ := by
  unfold mainStep at h
  simp only [bind_eq_ok_iff, pure_eq_ok, Except.ok.injEq] at h
  obtain ⟨⟨blocks, flags⟩, hread, rfl⟩ := h
  exact ⟨blocks, flags, hread, rfl⟩

/-- The main-thread pass reads its jobs one after the other. -/
theorem mainPass_steps
    {native : NativeReader} {chunk : Nat} {jobs : List (Nat × ChunkJob)}
    {main : MainPass}
    (h : mainPass native chunk jobs = .ok main) :
    ∃ steps : List MainStep,
      steps.map Prod.fst = jobs ∧
        (∀ step ∈ steps, ∃ flags flags',
          collectMainChunk native step.1.2 chunk flags =
            .ok (step.2, flags')) ∧
        main.blocks =
          steps.flatMap fun step => step.2.map fun block =>
            (step.1.1, block) := by
  suffices hgen : ∀ (rest : List (Nat × ChunkJob)) (state : MainPass),
      rest.foldlM (mainStep native chunk) state = .ok main →
      ∃ steps : List MainStep,
        steps.map Prod.fst = rest ∧
          (∀ step ∈ steps, ∃ flags flags',
            collectMainChunk native step.1.2 chunk flags =
              .ok (step.2, flags')) ∧
          main.blocks =
            state.blocks ++ steps.flatMap fun step =>
              step.2.map fun block => (step.1.1, block) by
    exact hgen jobs _ h
  intro rest
  induction rest with
  | nil =>
      intro state hrun
      simp only [List.foldlM_nil, pure_eq_ok, Except.ok.injEq] at hrun
      subst hrun
      exact ⟨[], rfl, by simp, by simp⟩
  | cons job rest ih =>
      intro state hrun
      rw [List.foldlM_cons] at hrun
      obtain ⟨_, hstep, hrun⟩ := bind_eq_ok_iff.mp hrun
      obtain ⟨blocks, flags, hread, rfl⟩ := mainStep_ok hstep
      obtain ⟨steps, hjobs, hreads, hblocks⟩ := ih _ hrun
      refine ⟨(job, blocks) :: steps, by simp [hjobs], ?_, ?_⟩
      · intro step hstep
        rcases List.mem_cons.mp hstep with rfl | hstep
        · exact ⟨_, _, hread⟩
        · exact hreads step hstep
      · rw [hblocks, List.flatMap_cons, List.append_assoc]

/-- The main thread leaves the numeric columns alone. -/
theorem mainPass_spares
    {native : NativeReader} {chunk : Nat}
    {groups : List GroupPlan} {targets : List TargetColumn}
    {main : MainPass} {task : Task} {place : Nat × Nat}
    (htargets : (targets.map TargetColumn.index).Nodup)
    (hmain : mainPass native chunk (mainJobs groups targets) = .ok main)
    (htask : task ∈ numericTasks groups targets)
    (hcovers : task.Covers place) :
    Spares place main.actions := by
  obtain ⟨group, -, target, htarget, honMain, rfl⟩ :=
    mem_numericTasks.mp htask
  intro a ha
  obtain ⟨entry, hentry, ha⟩ := List.mem_flatMap.mp ha
  refine putCells_spares ?_ a ha
  intro hcolumn
  exfalso
  obtain ⟨steps, hjobs, -, hblocks⟩ := mainPass_steps hmain
  rw [hblocks] at hentry
  obtain ⟨step, hstep, hentry⟩ := List.mem_flatMap.mp hentry
  obtain ⟨block, -, rfl⟩ := List.mem_map.mp hentry
  have hjob : step.1 ∈ mainJobs groups targets := by
    rw [← hjobs]
    exact List.mem_map_of_mem hstep
  simp only [mainJobs, List.mem_flatMap, List.mem_map, List.mem_filter]
    at hjob
  obtain ⟨_, -, target', ⟨htarget', honMain'⟩, hindex⟩ := hjob
  have hsame : target = target' :=
    List.inj_on_of_nodup_map htargets htarget htarget'
      (hcovers.1.symm.trans (hcolumn.trans (congrArg Prod.fst hindex).symm))
  rw [hsame, honMain'] at honMain
  cases honMain

end MainThread

end Read
end QioParquet
