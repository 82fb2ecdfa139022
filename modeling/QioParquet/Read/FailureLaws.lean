import QioParquet.Read.CollectLaws
import Mathlib.Tactic

/-!
# When collect() fails

A collect reads one chunk for every selected non-empty row group and selected
column. Lanes skip the tasks after their first failure and the inline loop stops
early, so not every failing chunk is tried. Still a collect raises exactly when
some chunk fails: the failing task with the smallest index always runs, because
every task before it in its own lane succeeds. Flags play no part in this, since
no decoder looks at the flags raised before it.
-/

namespace QioParquet
namespace Read

open Lib

section Flags

theorem scatterNumericRaw_fst
    (c : ColumnSpec) (b : DenseBatch) (flags flags' : Flags) :
    (scatterNumericRaw c b flags).map Prod.fst =
      (scatterNumericRaw c b flags').map Prod.fst := by
  have hpair (cells : Except ReadError (List RCell)) (f f' : Flags) :
      (cells >>= fun cells => pure (cells, f)).map Prod.fst =
        (cells >>= fun cells => pure (cells, f')).map Prod.fst := by
    cases cells <;> rfl
  rw [scatterNumericRaw, scatterNumericRaw]
  cases c.type with
  | int32 =>
      by_cases hkind : c.kind = .uint32
      · simp only [if_pos hkind]
        exact hpair _ _ _
      · simp only [if_neg hkind]
        exact hpair _ _ _
  | int64 =>
      cases c.int64Mode <;> exact hpair _ _ _
  | boolean | int96 | float | double | byteArray | fixedLenByteArray =>
      first | rfl | exact hpair _ _ _

theorem scatterDenseColumn_fst
    (c : ColumnSpec) (b : DenseBatch) (flags flags' : Flags) :
    (scatterDenseColumn c b flags).map Prod.fst =
      (scatterDenseColumn c b flags').map Prod.fst := by
  rw [scatterDenseColumn, scatterDenseColumn]
  split_ifs with huuid hbinary htext
  · cases checkUuidWidth c.typeLength c.name with
    | error e =>
        rfl
    | ok width =>
        cases scatterLoop ReadError.undefinedBehaviour RCell.strNA
          (fun _ v => uuidElement v) 0 (b.presence c.maxDef) b.values <;> rfl
  · cases scatterLoop ReadError.undefinedBehaviour RCell.null
      (fun _ v => rawElement c b.memory v) 0 (b.presence c.maxDef)
      b.values <;> rfl
  · cases scatterTextLoop b.memory c.name 0 (b.presence c.maxDef) b.values
      CharCache.reset <;> rfl
  · exact scatterNumericRaw_fst c b flags flags'

theorem materializeStep_fst
    (native : NativeReader) (job : ChunkJob) (r : ColumnReader)
    (blocks : List Block) (flags flags' : Flags) (slice : Nat × Nat) :
    (materializeStep native job r (blocks, flags) slice).map Prod.fst =
      (materializeStep native job r (blocks, flags') slice).map Prod.fst := by
  rw [materializeStep, materializeStep]
  cases r.readBatch slice.1 slice.2 with
  | none =>
      rfl
  | some b =>
      dsimp only
      split_ifs with hcount
      · rfl
      · refine bind_fst (scatterDenseColumn_fst job.spec b flags flags') ?_
        intro cells f f'
        dsimp only
        cases checkElements .wrongVectorType job.sexptype cells <;> rfl

/-- Whether a chunk of the main-thread pass fails, and how, does not depend on
the flags its column has collected before. -/
theorem collectMainChunk_fst
    (native : NativeReader) (job : ChunkJob) (chunk : Nat)
    (flags flags' : Flags) :
    (collectMainChunk native job chunk flags).map Prod.fst =
      (collectMainChunk native job chunk flags').map Prod.fst := by
  have hloop (r : ColumnReader) :=
    foldlM_fst (materializeStep_fst native job r) (slices chunk 0 job.rows) []
      flags flags'
  rw [collectMainChunk, collectMainChunk]
  cases openColumn native job 0 with
  | error e =>
      rfl
  | ok r =>
      simp only [ok_bind]
      split_ifs with htext
      · cases collectDictionaryChunk native job r chunk with
        | error e =>
            rfl
        | ok attempt =>
            simp only [ok_bind]
            split_ifs with hpath
            · rfl
            · cases openColumn native job 1 with
              | error e =>
                  rfl
              | ok again =>
                  exact bind_fst (hloop again) fun _ _ _ => rfl
      · exact hloop r

theorem collectMainChunk_error_iff
    {native : NativeReader} {job : ChunkJob} {chunk : Nat} {e : ReadError}
    (flags flags' : Flags) :
    collectMainChunk native job chunk flags = .error e ↔
      collectMainChunk native job chunk flags' = .error e := by
  rw [← map_eq_error_iff, collectMainChunk_fst native job chunk flags flags',
    map_eq_error_iff]

end Flags

section Chunks

/-- Reading the chunk of a column in a row group fails. -/
def CollectContext.ChunkFails
    (ctx : CollectContext) (target : TargetColumn) (plan : GroupPlan) : Prop :=
  if target.onMain then
    ∃ e, collectMainChunk ctx.native (target.job plan) ctx.chunk Flags.none =
      .error e
  else
    (columnTaskRun ctx.native (target.task plan)).failure ≠ none

variable {ctx : CollectContext} {targets : List TargetColumn}

theorem mem_mainJobs
    {plans : List GroupPlan} {entry : Nat × ChunkJob} :
    entry ∈ mainJobs plans targets ↔
      ∃ plan ∈ plans, ∃ target ∈ targets, target.onMain = true ∧
        (target.index, target.job plan) = entry := by
  simp only [mainJobs, List.mem_flatMap, List.mem_map, List.mem_filter,
    and_assoc]

/-- The main-thread pass raises if and only if one of its chunks fails. -/
theorem mainPass_error_iff
    {native : NativeReader} {chunk : Nat} {jobs : List (Nat × ChunkJob)} :
    (∃ e, mainPass native chunk jobs = .error e) ↔
      ∃ entry ∈ jobs, ∃ e,
        collectMainChunk native entry.2 chunk Flags.none = .error e := by
  rw [mainPass]
  generalize (⟨[], fun _ => Flags.none⟩ : MainPass) = state
  induction jobs generalizing state with
  | nil =>
      simp
  | cons entry jobs ih =>
      rw [List.foldlM_cons, List.exists_mem_cons_iff]
      cases hchunk : collectMainChunk native entry.2 chunk
          (state.flags entry.1) with
      | error e =>
          have hnone := (collectMainChunk_error_iff _ Flags.none).mp hchunk
          simp [mainStep, hchunk, hnone]
      | ok stored =>
          have hnone : ¬ ∃ e, collectMainChunk native entry.2 chunk
              Flags.none = .error e := by
            rintro ⟨e, he⟩
            rw [(collectMainChunk_error_iff _ _).mp he] at hchunk
            cases hchunk
          rw [or_iff_right hnone, mainStep, hchunk]
          exact ih _

/-- Reading the chunk of a column in a row group raises this error. -/
def CollectContext.ChunkRaises
    (ctx : CollectContext) (target : TargetColumn) (plan : GroupPlan)
    (e : ReadError) : Prop :=
  if target.onMain then
    collectMainChunk ctx.native (target.job plan) ctx.chunk Flags.none = .error e
  else
    ∃ failure, (columnTaskRun ctx.native (target.task plan)).failure = some failure ∧
      e = taskError ctx.native (target.task plan) failure

/-- The error of the main-thread pass is the error of one of its chunks. -/
theorem main_error_raised
    {e : ReadError}
    (h : ctx.main targets = .error e) :
    ∃ plan ∈ ctx.plans, ∃ target ∈ targets, ctx.ChunkRaises target plan e := by
  obtain ⟨state, entry, hentry, hstep⟩ := exists_of_foldlM_error h
  obtain ⟨plan, hplan, target, htarget, hmain, rfl⟩ := mem_mainJobs.mp hentry
  refine ⟨plan, hplan, target, htarget, ?_⟩
  rw [CollectContext.ChunkRaises, if_pos hmain]
  rw [mainStep, bind_eq_error_iff] at hstep
  rcases hstep with hchunk | ⟨found, -, hdone⟩
  · exact (collectMainChunk_error_iff _ _).mp hchunk
  · cases hdone

theorem main_error_iff :
    (∃ e, ctx.main targets = .error e) ↔
      ∃ plan ∈ ctx.plans, ∃ target ∈ targets,
        target.onMain = true ∧ ctx.ChunkFails target plan := by
  rw [CollectContext.main, mainPass_error_iff]
  constructor
  · rintro ⟨entry, hentry, hfail⟩
    obtain ⟨plan, hplan, target, htarget, hmain, rfl⟩ :=
      mem_mainJobs.mp hentry
    refine ⟨plan, hplan, target, htarget, hmain, ?_⟩
    rw [CollectContext.ChunkFails, if_pos hmain]
    exact hfail
  · rintro ⟨plan, hplan, target, htarget, hmain, hfail⟩
    rw [CollectContext.ChunkFails, if_pos hmain] at hfail
    exact ⟨_, mem_mainJobs.mpr ⟨plan, hplan, target, htarget, hmain, rfl⟩,
      hfail⟩

theorem firstFailure_eq_some_iff
    {native : NativeReader} {tasks : List Task} {e : ReadError} :
    firstFailure native tasks = some e ↔
      ∃ t task failure, tasks[t]? = some task ∧
        (columnTaskRun native task).failure = some failure ∧
        (∀ (t' : Nat) task', t' < t → tasks[t']? = some task' →
          (columnTaskRun native task').failure = none) ∧
        e = taskError native task failure := by
  induction tasks with
  | nil =>
      simp [firstFailure]
  | cons task rest ih =>
      rw [firstFailure]
      cases hfail : (columnTaskRun native task).failure with
      | some failure =>
          constructor
          · rintro ⟨⟩
            exact ⟨0, task, failure, rfl, hfail, by simp, rfl⟩
          · rintro ⟨t, task', failure', htask, hfail', hbefore, rfl⟩
            rcases t with _ | t
            · obtain rfl : task = task' := Option.some.inj htask
              rw [hfail] at hfail'
              rw [Option.some.inj hfail']
            · have hnone := hbefore 0 task (Nat.succ_pos t) rfl
              rw [hfail] at hnone
              cases hnone
      | none =>
          dsimp only
          rw [ih]
          constructor
          · rintro ⟨t, task', failure, htask, hfail', hbefore, rfl⟩
            refine ⟨t + 1, task', failure, htask, hfail', ?_, rfl⟩
            rintro (_ | t') task'' hlt htask''
            · rw [← Option.some.inj htask'']
              exact hfail
            · exact hbefore t' task'' (Nat.lt_of_succ_lt_succ hlt) htask''
          · rintro ⟨t, task', failure, htask, hfail', hbefore, rfl⟩
            rcases t with _ | t
            · rw [← Option.some.inj htask, hfail] at hfail'
              cases hfail'
            · refine ⟨t, task', failure, htask, hfail', ?_, rfl⟩
              intro t' task'' hlt htask''
              exact hbefore (t' + 1) task'' (Nat.succ_lt_succ hlt) htask''

theorem task_fails_iff :
    firstFailure ctx.native (ctx.tasks targets) ≠ none ↔
      ∃ plan ∈ ctx.plans, ∃ target ∈ targets,
        target.onMain = false ∧ ctx.ChunkFails target plan := by
  rw [ne_eq, firstFailure_eq_none_iff]
  constructor
  · intro h
    push Not at h
    obtain ⟨task, htask, hfail⟩ := h
    obtain ⟨plan, hplan, target, htarget, hnumeric, rfl⟩ :=
      mem_numericTasks.mp htask
    refine ⟨plan, hplan, target, htarget, hnumeric, ?_⟩
    rw [CollectContext.ChunkFails, if_neg (by simp [hnumeric])]
    exact hfail
  · rintro ⟨plan, hplan, target, htarget, hnumeric, hfail⟩ h
    rw [CollectContext.ChunkFails, if_neg (by simp [hnumeric])] at hfail
    exact hfail (h _
      (mem_numericTasks.mpr ⟨plan, hplan, target, htarget, hnumeric, rfl⟩))

end Chunks

section Runs

variable {ctx : CollectContext} {handle : Handle}
  {targets : List TargetColumn} {run : List Action}
  {result : Except ReadError ReadResult} {file : ParquetFile}

theorem collectEnd_error_iff
    {native : NativeReader} {tasks : List Task} {rows : Nat} {main : MainPass}
    {heap : Heap} {e : ReadError} :
    collectEnd native targets tasks rows main heap = .error e ↔
      firstFailure native tasks = some e := by
  rw [collectEnd]
  cases firstFailure native tasks <;> simp

/-- In every mode, a run raises the main thread's error or the first failure of
all tasks, and raises nothing else. -/
theorem TaskRun.error_cases
    {e : ReadError}
    (h : TaskRun ctx handle targets run (.error e)) :
    ctx.main targets = .error e ∨
      firstFailure ctx.native (ctx.tasks targets) = some e := by
  generalize hresult : Except.error e = result at h
  cases h with
  | inlineFailed _ hfail =>
      cases hresult
      exact Or.inr hfail
  | inlineRaised _ _ hmain | parallelRaised _ hmain _ =>
      cases hresult
      exact Or.inl hmain
  | @inlineDone main _ hfail _ =>
      rw [eq_comm, collectEnd_error_iff, firstFailure_recordedTasks
        fun t task => finish_mem_inline main] at hresult
      exact Or.inr hresult
  | parallelDone hmode _ hrun =>
      rw [eq_comm, collectEnd_error_iff, firstFailure_recordedTasks
        fun t task => finish_mem_parallel hmode
          (mode_lanes_pos ctx handle targets) hrun] at hresult
      exact Or.inr hresult

/-- The error of a run is the error of one of its chunks. -/
theorem TaskRun.error_raised
    {e : ReadError}
    (h : TaskRun ctx handle targets run (.error e)) :
    ∃ plan ∈ ctx.plans, ∃ target ∈ targets, ctx.ChunkRaises target plan e := by
  rcases h.error_cases with hmain | hfail
  · exact main_error_raised hmain
  · obtain ⟨t, task, failure, htask, hfailure, -, he⟩ :=
      firstFailure_eq_some_iff.mp hfail
    obtain ⟨plan, hplan, target, htarget, hnumeric, rfl⟩ :=
      mem_numericTasks.mp (List.mem_of_getElem? htask)
    refine ⟨plan, hplan, target, htarget, ?_⟩
    rw [CollectContext.ChunkRaises, if_neg (by simp [hnumeric])]
    exact ⟨failure, hfailure, he⟩

/-- The main thread has not raised in a run that returns. -/
theorem TaskRun.main_of_ok
    {r : ReadResult}
    (h : TaskRun ctx handle targets run (.ok r)) :
    ∃ main, ctx.main targets = .ok main := by
  generalize hresult : Except.ok r = result at h
  cases h with
  | inlineFailed _ _ | inlineRaised _ _ _ | parallelRaised _ _ _ =>
      cases hresult
  | inlineDone _ _ hmain | parallelDone _ hmain _ =>
      exact ⟨_, hmain⟩

/-- A run raises if and only if one of the chunks fails. -/
theorem TaskRun.error_iff
    (h : TaskRun ctx handle targets run result) :
    (∃ e, result = .error e) ↔
      ∃ plan ∈ ctx.plans, ∃ target ∈ targets, ctx.ChunkFails target plan := by
  constructor
  · rintro ⟨e, rfl⟩
    rcases h.error_cases with hmain | hfail
    · obtain ⟨plan, hplan, target, htarget, -, hchunk⟩ :=
        main_error_iff.mp ⟨e, hmain⟩
      exact ⟨plan, hplan, target, htarget, hchunk⟩
    · obtain ⟨plan, hplan, target, htarget, -, hchunk⟩ :=
        task_fails_iff.mp (by rw [hfail]; exact Option.some_ne_none e)
      exact ⟨plan, hplan, target, htarget, hchunk⟩
  · rintro ⟨plan, hplan, target, htarget, hchunk⟩
    cases result with
    | error e =>
        exact ⟨e, rfl⟩
    | ok r =>
        cases hmain : target.onMain with
        | true =>
            obtain ⟨e, he⟩ :=
              main_error_iff.mpr ⟨plan, hplan, target, htarget, hmain, hchunk⟩
            obtain ⟨main, hok⟩ := h.main_of_ok
            rw [he] at hok
            cases hok
        | false =>
            have hfail :=
              task_fails_iff.mpr ⟨plan, hplan, target, htarget, hmain, hchunk⟩
            exact absurd (firstFailure_eq_none_iff.mpr h.noTaskFails) hfail

/-- When no chunk of the main thread fails, the error is the one of the failing
task with the smallest index. -/
theorem TaskRun.first_failure
    {e : ReadError}
    (h : TaskRun ctx handle targets run result)
    (hmain : ¬ ∃ e, ctx.main targets = .error e)
    (hfail : firstFailure ctx.native (ctx.tasks targets) = some e) :
    result = .error e := by
  cases result with
  | ok r =>
      rw [firstFailure_eq_none_iff.mpr h.noTaskFails] at hfail
      cases hfail
  | error e' =>
      rcases h.error_cases with hraised | hfail'
      · exact absurd ⟨e', hraised⟩ hmain
      · rw [hfail] at hfail'
        rw [Option.some.inj hfail']

/-- The vectors of columns of an accepted kind can be allocated. -/
theorem exists_allocateResult
    {sel : Selection}
    (hsupported : ∀ column ∈ sel.columns, column.spec.Supported) :
    ∃ targets, allocateResult sel = .ok targets := by
  rw [allocateResult]
  apply exists_mapM_ok
  rintro ⟨column, i⟩ hmem
  have hcolumn : column ∈ sel.columns :=
    (List.mem_zipIdx hmem).2.2 ▸ List.getElem_mem _
  have htype : ∃ sexptype,
      columnSexpType column.spec.type column.spec.kind = .ok sexptype := by
    unfold columnSexpType
    split_ifs with hbinary huuid huint
    · exact ⟨_, rfl⟩
    · exact ⟨_, rfl⟩
    · exact ⟨_, rfl⟩
    · cases htype : column.spec.type with
      | fixedLenByteArray =>
          rcases hsupported column hcolumn htype with hkind | hkind
          · exact absurd hkind huuid
          · exact absurd hkind hbinary
      | boolean | int32 | int64 | int96 | float | double | byteArray =>
          exact ⟨_, rfl⟩
  obtain ⟨sexptype, hsexptype⟩ := htype
  exact ⟨⟨i, column, sexptype⟩, by simp [hsexptype]⟩

/-- The vectors of a selection that was accepted can be allocated. -/
theorem CollectContext.Reads.exists_alloc
    (hctx : ctx.Reads file) :
    ∃ targets, allocateResult ctx.selection = .ok targets :=
  exists_allocateResult fun column hcolumn => by
    obtain ⟨_, _, _, -, -, -, hsupported⟩ := hctx.valid.columns column hcolumn
    exact hsupported

/-- A collect raises exactly when something it must read fails. A selection of
more rows than R can count is refused before any chunk is read. Otherwise, in
every mode and every interleaving, the collect raises if and only if the chunk
of some selected column in some selected row group fails; and if only numeric
chunks fail, the error is the one of the failing task with the smallest index,
row groups outermost. -/
theorem collect_fails_iff_chunk_fails
    (hctx : ctx.Reads file)
    (h : CollectRun ctx handle run result) :
    ∃ targets, allocateResult ctx.selection = .ok targets ∧
      ((∃ e, result = .error e) ↔
        2 ^ 31 - 1 < ctx.selection.totalRows ∨
          ∃ plan ∈ ctx.plans, ∃ target ∈ targets,
            ctx.ChunkFails target plan) ∧
      (ctx.selection.totalRows ≤ 2 ^ 31 - 1 →
        (∀ plan ∈ ctx.plans, ∀ target ∈ targets, target.onMain = true →
          ¬ ctx.ChunkFails target plan) →
        ∀ t task failure, (ctx.tasks targets)[t]? = some task →
          (columnTaskRun ctx.native task).failure = some failure →
          (∀ (t' : Nat) task', t' < t →
            (ctx.tasks targets)[t']? = some task' →
            (columnTaskRun ctx.native task').failure = none) →
          result = .error (taskError ctx.native task failure)) := by
  obtain ⟨targets, halloc⟩ := hctx.exists_alloc
  refine ⟨targets, halloc, ?_⟩
  cases h with
  | tooManyRows hrows =>
      exact ⟨iff_of_true ⟨_, rfl⟩ (Or.inl hrows),
        fun hle => absurd hrows (not_lt.mpr hle)⟩
  | unsupported _ halloc' =>
      rw [halloc] at halloc'
      cases halloc'
  | empty hrows _ hempty =>
      have hnothing : ∀ plan ∈ ctx.plans, ∀ target ∈ targets, False := by
        intro plan hplan target htarget
        rcases hempty with hzero | hcolumns
        · rw [hctx.plans_eq_nil hzero] at hplan
          cases hplan
        · have hmap := (allocateResult_ok halloc).2.1
          rw [hcolumns, List.map_eq_nil_iff] at hmap
          rw [hmap] at htarget
          cases htarget
      constructor
      · refine iff_of_false (by simp) ?_
        rintro (hlt | ⟨plan, hplan, target, htarget, -⟩)
        · exact absurd hlt (not_lt.mpr hrows)
        · exact hnothing plan hplan target htarget
      · intro _ _ t task failure htask
        obtain ⟨plan, hplan, target, htarget, -⟩ :=
          mem_numericTasks.mp (List.mem_of_getElem? htask)
        exact (hnothing plan hplan target htarget).elim
  | read hrows halloc' _ _ hrun =>
      rw [halloc] at halloc'
      cases halloc'
      rw [or_iff_right (not_lt.mpr hrows)]
      refine ⟨hrun.error_iff, ?_⟩
      intro _ hmain t task failure htask hfail hbefore
      refine hrun.first_failure ?_
        (firstFailure_eq_some_iff.mpr
          ⟨t, task, failure, htask, hfail, hbefore, rfl⟩)
      rw [main_error_iff]
      rintro ⟨plan, hplan, target, htarget, honMain, hchunk⟩
      exact hmain plan hplan target htarget honMain hchunk

/-- Column `x` does not decode: the pool runs both tasks, and the error is the
one of the first. -/
theorem collect_fails_iff_chunk_fails_pair :
    ∃ run result,
      CollectRun (pairContext fun column => column == 1) mappedHandle run
          result ∧
        (∃ plan ∈ (pairContext fun column => column == 1).plans,
          ∃ target ∈ pairTargets,
            (pairContext fun column => column == 1).ChunkFails target plan) ∧
        result = .error (.decodeFailed "x" 1
          ((pairNative fun column => column == 1).columnEncodings 0 0)) := by
  have hreads := pairContext_reads fun column => column == 1
  have hrun : CollectRun (pairContext fun column => column == 1) mappedHandle
      _ _ :=
    .read (by decide) (pairContext_alloc _) (by decide)
      (by simp [pairContext, pairSelection])
      (.parallelDone (by rw [mappedHandle_mode]; decide)
        (pairContext_main _) (Interleaving.sequential _))
  obtain ⟨targets, halloc, hiff, hfirst⟩ :=
    collect_fails_iff_chunk_fails hreads hrun
  obtain rfl : pairTargets = targets :=
    Except.ok.inj ((pairContext_alloc _).symm.trans halloc)
  have hnumeric : ∀ target ∈ pairTargets, target.onMain = false := by
    decide
  have hresult := hfirst (by decide)
    (fun plan _ target htarget hmain => by
      rw [hnumeric target htarget] at hmain
      cases hmain)
    0 _ .decodeFailed rfl rfl (by simp)
  refine ⟨_, _, hrun, ?_, hresult⟩
  exact (hiff.mp ⟨_, hresult⟩).resolve_left (by decide)

end Runs

end Read
end QioParquet
