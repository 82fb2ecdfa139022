import QioParquet.Read.Chunk
import QioParquet.Lib.Interleaving
import Mathlib.Tactic

/-!
# collect()

`qio_collect_body` and the ways its numeric work is scheduled. Every (selected
non-empty row group, numeric column) is one task. Tasks run inline, on a worker
pool over one mapped reader, or in lanes that each own a private reader;
strings and lists are filled by the main thread meanwhile. A run is a sequence
of actions: tasks start and finish, and elements are put into the result.
Parallel runs are the interleavings of the threads' programs.
-/

namespace QioParquet
namespace Read

open Lib

section Plan

/-- A selected row group that has rows: its index, row count and first row in
the result. -/
structure GroupPlan where
  index : Nat
  rows : Nat
  offset : Nat
deriving DecidableEq

/-- The first loop of `qio_collect_body`. -/
def groupPlans : Nat → List (Nat × RowGroup) → List GroupPlan
  | _, [] => []
  | offset, (index, group) :: rest =>
      if group.numRows ≤ 0 then
        groupPlans offset rest
      else
        ⟨index, group.numRows.toNat, offset⟩ ::
          groupPlans (offset + group.numRows.toNat) rest

/-- `qio_column_task_t`, without the fields a run fills in and the reader. -/
structure Task where
  rowGroup : Nat
  fileColumn : Nat
  spec : ColumnSpec
  sexptype : SexpType
  dstOffset : Nat
  rows : Nat
  selectionIndex : Nat

/-- A selected column of the result: its index, the column, and the type of the
vector allocated for it. -/
structure TargetColumn where
  index : Nat
  column : SelectedColumn
  sexptype : SexpType

/-- `qio_allocate_result`: a vector type for every selected column. -/
def allocateResult (sel : Selection) : Except ReadError (List TargetColumn) :=
  sel.columns.zipIdx.mapM fun entry => do
    let sexptype ← columnSexpType entry.1.spec.type entry.1.spec.kind
    return ⟨entry.2, entry.1, sexptype⟩

def TargetColumn.onMain (target : TargetColumn) : Bool :=
  needsMainThread target.column.spec.type target.column.spec.kind

def TargetColumn.task (target : TargetColumn) (group : GroupPlan) : Task where
  rowGroup := group.index
  fileColumn := target.column.fileColumn
  spec := target.column.spec
  sexptype := target.sexptype
  dstOffset := group.offset
  rows := group.rows
  selectionIndex := target.index

def TargetColumn.job
    (target : TargetColumn) (group : GroupPlan) : ChunkJob where
  rowGroup := group.index
  fileColumn := target.column.fileColumn
  spec := target.column.spec
  sexptype := target.sexptype
  offset := group.offset
  rows := group.rows

/-- One task for each row group and numeric column, row groups outermost. -/
def numericTasks
    (groups : List GroupPlan) (targets : List TargetColumn) : List Task :=
  groups.flatMap fun group =>
    (targets.filter fun target => !target.onMain).map
      fun target => target.task group

/-- The chunks of the main-thread pass, with their result columns. -/
def mainJobs
    (groups : List GroupPlan) (targets : List TargetColumn) :
    List (Nat × ChunkJob) :=
  groups.flatMap fun group =>
    (targets.filter TargetColumn.onMain).map
      fun target => (target.index, target.job group)

end Plan

section Tasks

inductive TaskFailure where
  | message (text : String)
  | decodeFailed
  | undefined
deriving DecidableEq

/-- What a task has done when it ends: the elements it put in place from its
first row on, its flags, and its failure. -/
structure TaskOutcome where
  cells : List RCell
  flags : Flags
  failure : Option TaskFailure

/-- `QIO_TASK_BATCH`. -/
def taskBatch : Nat := 65536

/-- The batch loop of `qio_column_task_run`. -/
def taskLoop (task : Task) (r : ColumnReader) :
    List (Nat × Nat) → TaskOutcome → TaskOutcome
  | [], outcome => outcome
  | slice :: rest, outcome =>
      match r.readBatch slice.1 slice.2 with
      | none => { outcome with failure := some .decodeFailed }
      | some b =>
          if b.count ≠ slice.2 then
            { outcome with
              failure := some (.message
                (s!"column {task.fileColumn + 1} of row group " ++
                  s!"{task.rowGroup + 1} yielded {slice.1 + b.count} of " ++
                  s!"{task.rows} rows")) }
          else
            match scatterNumericRaw task.spec b outcome.flags with
            | .error _ => { outcome with failure := some .undefined }
            | .ok (cells, flags) =>
                if checkElements .undefinedBehaviour task.sexptype cells =
                    .ok () then
                  taskLoop task r rest
                    { outcome with
                      cells := outcome.cells ++ cells
                      flags := flags }
                else
                  { outcome with failure := some .undefined }

/-- `qio_column_task_run`. -/
def columnTaskRun (native : NativeReader) (task : Task) : TaskOutcome :=
  match native.getColumn 0 task.rowGroup task.fileColumn with
  | .error reason => ⟨[], Flags.none, some (.message reason)⟩
  | .ok r =>
      taskLoop task r (slices (min task.rows taskBatch) 0 task.rows)
        ⟨[], Flags.none, none⟩

/-- The error the main thread raises for a failed task. -/
def taskError
    (native : NativeReader) (task : Task) : TaskFailure → ReadError
  | .message text => .taskMessage text
  | .decodeFailed =>
      .decodeFailed task.spec.name (task.rowGroup + 1)
        (native.columnEncodings task.rowGroup task.fileColumn)
  | .undefined => .undefinedBehaviour

end Tasks

section Threads

/-- An action of a thread. -/
inductive Action where
  | start (task : Nat)
  | put (column row : Nat) (cell : RCell)
  | finish (task : Nat)
deriving DecidableEq

/-- Consecutive elements of one result column. -/
def putCells (column offset : Nat) (cells : List RCell) : List Action :=
  cells.mapIdx fun k cell => .put column (offset + k) cell

def taskActions
    (native : NativeReader) (t : Nat) (task : Task) : List Action :=
  .start t ::
    putCells task.selectionIndex task.dstOffset
      (columnTaskRun native task).cells ++
    [.finish t]

/-- `qio_lane_run`: one task after the other, up to the first failure. The
inline loop of `qio_collect_body` stops in the same way. -/
def laneActions (native : NativeReader) : List (Nat × Task) → List Action
  | [] => []
  | (t, task) :: rest =>
      taskActions native t task ++
        if (columnTaskRun native task).failure.isSome then
          []
        else
          laneActions native rest

/-- Tasks of a lane: every `lanes`-th one, starting at the lane's number. -/
def laneTasks (tasks : List Task) (lanes lane : Nat) : List (Nat × Task) :=
  (List.range' lane ((tasks.length - lane + lanes - 1) / lanes)
    lanes).filterMap fun t => tasks[t]?.map fun task => (t, task)

/-- What the main-thread pass has stored, and the flags of the columns. -/
structure MainPass where
  blocks : List (Nat × Block)
  flags : Nat → Flags

/-- One chunk of the main-thread pass. -/
def mainStep
    (native : NativeReader) (chunk : Nat) (state : MainPass)
    (entry : Nat × ChunkJob) : Except ReadError MainPass := do
  let (blocks, flags) ←
    collectMainChunk native entry.2 chunk (state.flags entry.1)
  return ⟨state.blocks ++ blocks.map fun block => (entry.1, block),
    Function.update state.flags entry.1 flags⟩

/-- The main-thread pass of `qio_collect_body`. -/
def mainPass
    (native : NativeReader) (chunk : Nat) (jobs : List (Nat × ChunkJob)) :
    Except ReadError MainPass :=
  jobs.foldlM (mainStep native chunk) ⟨[], fun _ => Flags.none⟩

def MainPass.actions (main : MainPass) : List Action :=
  main.blocks.flatMap fun entry =>
    putCells entry.1 entry.2.1 entry.2.2

end Threads

section Modes

/-- The handle a read runs on, and what the system grants it: its thread
option, whether the file is mapped, whether a worker pool could be created, and
how many private readers open before the first one that does not. -/
structure Handle where
  threads : ℤ
  isMmap : Bool
  poolCreated : Bool
  privateReaders : Nat

/-- `qio_collect_threads`. -/
def collectThreads (requested : ℤ) : ℤ :=
  if 0 < requested then requested else 2

inductive Mode where
  | inline
  | pool
  | lanes (opened : Nat)
deriving DecidableEq

/-- `QIO_PRIVATE_READER_MIN_ROWS`. -/
def privateReaderMinRows : ℤ := 50000

/-- `CARQUET_POOL_QUEUE_CAPACITY`. -/
def poolQueueCapacity : Nat := 512

/-- How `qio_collect_body` decides to run its tasks. -/
def executionMode (handle : Handle) (tasks : Nat) (totalRows : ℤ) : Mode :=
  if handle.threads ≠ 1 ∧ 1 < collectThreads handle.threads ∧ 1 < tasks then
    let threads := min (collectThreads handle.threads).toNat tasks
    if handle.isMmap then
      if handle.poolCreated then .pool else .inline
    else if privateReaderMinRows ≤ totalRows then
      let opened := min threads handle.privateReaders
      if 1 < opened ∧ handle.poolCreated then .lanes opened else .inline
    else
      .inline
  else
    .inline

/-- The jobs submitted to the pool. -/
def poolJobs
    (native : NativeReader) (tasks : List Task) : Mode → List (List Action)
  | .inline => []
  | .pool => tasks.zipIdx.map fun entry => taskActions native entry.2 entry.1
  | .lanes opened =>
      (List.range opened).map fun lane =>
        laneActions native (laneTasks tasks opened lane)

/-- The jobs submitted by the time the main-thread pass raises: a primed queue
holds only so many. -/
def primedJobs
    (native : NativeReader) (tasks : List Task) (mode : Mode) :
    List (List Action) :=
  match mode with
  | .pool => (poolJobs native tasks .pool).take poolQueueCapacity
  | _ => poolJobs native tasks mode

/-- The reader a task reads through: the shared one, or its lane's. -/
def taskReader (mode : Mode) (t : Nat) : Option Nat :=
  match mode with
  | .lanes opened => some (t % opened)
  | _ => none

end Modes

section Results

/-- A data frame before the read plan: its columns and its row count. -/
structure Frame where
  columns : List RVector
  rowCount : Nat
deriving DecidableEq

/-- What a native read returns: the frame, and each column's flags. -/
structure ReadResult where
  frame : Frame
  flags : List Flags
deriving DecidableEq

/-- The result vectors, by column and row. -/
abbrev Heap := Nat × Nat → RCell

def Action.store : Action → Option ((Nat × Nat) × RCell)
  | .start _ => none
  | .put column row cell => some ((column, row), cell)
  | .finish _ => none

/-- Freshly allocated result vectors. -/
def freshHeap (targets : List TargetColumn) : Heap :=
  fun place =>
    match targets[place.1]? with
    | none => .unset
    | some target => target.sexptype.fresh

/-- The frame a heap holds. -/
def heapFrame
    (targets : List TargetColumn) (rows : Nat) (heap : Heap) : Frame where
  columns := targets.map fun target =>
    ⟨target.sexptype, (List.range rows).map fun row =>
      heap (target.index, row)⟩
  rowCount := rows

def enumerate (tasks : List Task) : List (Nat × Task) :=
  tasks.zipIdx.map fun entry => (entry.2, entry.1)

/-- The tasks a run got to. A lane leaves the tasks after its first failure
alone: they keep an empty status and raise no flag. -/
def recordedTasks (run : List Action) (tasks : List Task) : List Task :=
  ((enumerate tasks).filter fun entry =>
    decide (Action.finish entry.1 ∈ run)).map Prod.snd

/-- The first failed task, in task order. -/
def firstFailure
    (native : NativeReader) : List Task → Option ReadError
  | [] => none
  | task :: rest =>
      match (columnTaskRun native task).failure with
      | some failure => some (taskError native task failure)
      | none => firstFailure native rest

/-- Merge the tasks' flags into those of their columns. -/
def mergeFlags
    (native : NativeReader) (tasks : List Task) (flags : Nat → Flags) :
    Nat → Flags :=
  tasks.foldl
    (fun flags task =>
      Function.update flags task.selectionIndex
        ((flags task.selectionIndex).or (columnTaskRun native task).flags))
    flags

/-- The end of `qio_collect_body`: raise the first failure, or return. -/
def collectEnd
    (native : NativeReader) (targets : List TargetColumn)
    (tasks : List Task) (rows : Nat) (main : MainPass) (heap : Heap) :
    Except ReadError ReadResult :=
  match firstFailure native tasks with
  | some e => .error e
  | none =>
      .ok ⟨heapFrame targets rows heap,
        targets.map fun target =>
          mergeFlags native tasks main.flags target.index⟩

/-- What a collect reads: the file's native reader, the selection, the row
groups it selects, and the batch size. -/
structure CollectContext where
  native : NativeReader
  selection : Selection
  groups : List (Nat × RowGroup)
  batchSize : Nat

def CollectContext.plans (ctx : CollectContext) : List GroupPlan :=
  groupPlans 0 ctx.groups

/-- Rows read at a time on the main thread. -/
def CollectContext.chunk (ctx : CollectContext) : Nat :=
  max 1 (min ctx.batchSize
    ((ctx.plans.map GroupPlan.rows).foldl max 0))

def CollectContext.tasks
    (ctx : CollectContext) (targets : List TargetColumn) : List Task :=
  numericTasks ctx.plans targets

def CollectContext.main
    (ctx : CollectContext) (targets : List TargetColumn) :
    Except ReadError MainPass :=
  mainPass ctx.native ctx.chunk (mainJobs ctx.plans targets)

def CollectContext.mode
    (ctx : CollectContext) (handle : Handle) (targets : List TargetColumn) :
    Mode :=
  executionMode handle (ctx.tasks targets).length ctx.selection.totalRows

/-- The runs of `qio_collect_body` on a non-empty read with allocated result
vectors: the actions taken, and how it ends. -/
inductive TaskRun (ctx : CollectContext) (handle : Handle)
    (targets : List TargetColumn) :
    List Action → Except ReadError ReadResult → Prop where
  | inlineFailed {e : ReadError}
      (hmode : ctx.mode handle targets = .inline)
      (hfail : firstFailure ctx.native (ctx.tasks targets) = some e) :
      TaskRun ctx handle targets
        (laneActions ctx.native (enumerate (ctx.tasks targets))) (.error e)
  | inlineRaised {e : ReadError}
      (hmode : ctx.mode handle targets = .inline)
      (hfail : firstFailure ctx.native (ctx.tasks targets) = none)
      (hmain : ctx.main targets = .error e) :
      TaskRun ctx handle targets
        (laneActions ctx.native (enumerate (ctx.tasks targets))) (.error e)
  | inlineDone {main : MainPass}
      (hmode : ctx.mode handle targets = .inline)
      (hfail : firstFailure ctx.native (ctx.tasks targets) = none)
      (hmain : ctx.main targets = .ok main) :
      TaskRun ctx handle targets
        (laneActions ctx.native (enumerate (ctx.tasks targets)) ++
          main.actions)
        (collectEnd ctx.native targets
          (recordedTasks
            (laneActions ctx.native (enumerate (ctx.tasks targets)) ++
              main.actions)
            (ctx.tasks targets))
          ctx.selection.totalRows.toNat main
          (runStores Action.store (freshHeap targets)
            (laneActions ctx.native (enumerate (ctx.tasks targets)) ++
              main.actions)))
  | parallelRaised {e : ReadError} {run : List Action}
      (hmode : ctx.mode handle targets ≠ .inline)
      (hmain : ctx.main targets = .error e)
      (hrun : Interleaving
        (primedJobs ctx.native (ctx.tasks targets)
          (ctx.mode handle targets)) run) :
      TaskRun ctx handle targets run (.error e)
  | parallelDone {main : MainPass} {run : List Action}
      (hmode : ctx.mode handle targets ≠ .inline)
      (hmain : ctx.main targets = .ok main)
      (hrun : Interleaving
        (main.actions ::
          poolJobs ctx.native (ctx.tasks targets)
            (ctx.mode handle targets)) run) :
      TaskRun ctx handle targets run
        (collectEnd ctx.native targets
          (recordedTasks run (ctx.tasks targets))
          ctx.selection.totalRows.toNat main
          (runStores Action.store (freshHeap targets) run))

/-- The runs of `qio_collect_body`. -/
inductive CollectRun (ctx : CollectContext) (handle : Handle) :
    List Action → Except ReadError ReadResult → Prop where
  | tooManyRows
      (hrows : 2 ^ 31 - 1 < ctx.selection.totalRows) :
      CollectRun ctx handle [] (.error .tooManyRows)
  | unsupported {e : ReadError}
      (hrows : ctx.selection.totalRows ≤ 2 ^ 31 - 1)
      (halloc : allocateResult ctx.selection = .error e) :
      CollectRun ctx handle [] (.error e)
  | empty {targets : List TargetColumn}
      (hrows : ctx.selection.totalRows ≤ 2 ^ 31 - 1)
      (halloc : allocateResult ctx.selection = .ok targets)
      (hempty : ctx.selection.totalRows = 0 ∨ ctx.selection.columns = []) :
      CollectRun ctx handle []
        (.ok ⟨heapFrame targets ctx.selection.totalRows.toNat
            (freshHeap targets),
          targets.map fun _ => Flags.none⟩)
  | read {targets : List TargetColumn} {run : List Action}
      {result : Except ReadError ReadResult}
      (hrows : ctx.selection.totalRows ≤ 2 ^ 31 - 1)
      (halloc : allocateResult ctx.selection = .ok targets)
      (hrows' : ctx.selection.totalRows ≠ 0)
      (hcolumns : ctx.selection.columns ≠ [])
      (hrun : TaskRun ctx handle targets run result) :
      CollectRun ctx handle run result

end Results

end Read
end QioParquet
