import QioParquet.Read.TaskLaws
import Mathlib.Tactic

/-!
# Scheduling of collect()

Whatever the mode, the jobs of a run partition the tasks. From that: a task
starts at most once, and exactly once in a run that returns; a lane's reader
serves one task at a time; and, since tasks write to disjoint places, every
interleaving leaves the result of the serial inline run.
-/

namespace QioParquet
namespace Read

open Lib

section Partition

/-- The tasks of each job of a mode. -/
def taskParts (tasks : List Task) : Mode → List (List (Nat × Task))
  | .inline => [enumerate tasks]
  | .pool => (enumerate tasks).map fun entry => [entry]
  | .lanes opened => (List.range opened).map (laneTasks tasks opened)

theorem mem_enumerate
    {tasks : List Task} {entry : Nat × Task} :
    entry ∈ enumerate tasks ↔ tasks[entry.1]? = some entry.2 := by
  obtain ⟨t, task⟩ := entry
  simp only [enumerate, List.mem_map, Prod.exists, Prod.mk.injEq]
  constructor
  · rintro ⟨task', t', hmem, rfl, rfl⟩
    exact List.mem_zipIdx_iff_getElem?.mp hmem
  · intro hget
    exact ⟨task, t, List.mem_zipIdx_iff_getElem?.mpr hget, rfl, rfl⟩

theorem map_fst_enumerate (tasks : List Task) :
    (enumerate tasks).map Prod.fst = List.range tasks.length := by
  rw [enumerate, List.map_map, List.range_eq_range',
    ← List.zipIdx_map_snd 0 tasks]
  rfl

theorem map_snd_enumerate (tasks : List Task) :
    (enumerate tasks).map Prod.snd = tasks := by
  simp [enumerate, Function.comp_def]

theorem nodup_enumerate (tasks : List Task) : (enumerate tasks).Nodup := by
  apply List.Nodup.of_map Prod.fst
  rw [map_fst_enumerate]
  exact List.nodup_range

/-- A lane has the tasks whose number leaves the lane's as remainder. -/
theorem mem_laneTasks
    {tasks : List Task} {lanes lane : Nat} {entry : Nat × Task}
    (hlane : lane < lanes) :
    entry ∈ laneTasks tasks lanes lane ↔
      tasks[entry.1]? = some entry.2 ∧ entry.1 % lanes = lane := by
  obtain ⟨t, task⟩ := entry
  simp only [laneTasks, List.mem_filterMap, Option.map_eq_some_iff,
    Prod.mk.injEq]
  constructor
  · rintro ⟨_, hrange, _, hget, rfl, rfl⟩
    obtain ⟨i, -, rfl⟩ := List.mem_range'.mp hrange
    exact ⟨hget, by simp [Nat.mod_eq_of_lt hlane]⟩
  · rintro ⟨hget, hmod⟩
    obtain ⟨hlt, -⟩ := List.getElem?_eq_some_iff.mp hget
    refine ⟨t, List.mem_range'.mpr ⟨t / lanes, ?_, ?_⟩, task, hget, rfl, rfl⟩
    · have hdiv := Nat.div_add_mod t lanes
      rw [Nat.lt_iff_add_one_le, Nat.le_div_iff_mul_le (by omega)]
      rw [Nat.add_mul, Nat.one_mul, Nat.mul_comm (t / lanes)]
      omega
    · have hdiv := Nat.div_add_mod t lanes
      omega

theorem nodup_laneTasks (tasks : List Task) {lanes lane : Nat}
    (hlanes : 0 < lanes) :
    (laneTasks tasks lanes lane).Nodup := by
  refine List.Nodup.filterMap ?_ (List.nodup_range' _ hlanes)
  intro t t' entry ht ht'
  simp only [Option.mem_def, Option.map_eq_some_iff] at ht ht'
  obtain ⟨task, -, rfl⟩ := ht
  obtain ⟨task', -, heq⟩ := ht'
  exact (Prod.mk.inj heq).1.symm

/-- Every task is in exactly one job. -/
theorem flatten_taskParts_perm
    (tasks : List Task) {mode : Mode}
    (hmode : ∀ opened, mode = .lanes opened → 0 < opened) :
    (taskParts tasks mode).flatten.Perm (enumerate tasks) := by
  cases mode with
  | inline =>
      simp [taskParts]
  | pool =>
      rw [taskParts, ← List.flatMap_def, List.flatMap_singleton']
  | lanes opened =>
      have hopened := hmode opened rfl
      rw [List.perm_ext_iff_of_nodup ?_ (nodup_enumerate tasks)]
      · intro entry
        simp only [taskParts, List.mem_flatten, List.mem_map,
          List.mem_range]
        constructor
        · rintro ⟨_, ⟨lane, hlane, rfl⟩, hmem⟩
          exact mem_enumerate.mpr ((mem_laneTasks hlane).mp hmem).1
        · intro hmem
          have hlane := Nat.mod_lt entry.1 hopened
          exact ⟨_, ⟨entry.1 % opened, hlane, rfl⟩,
            (mem_laneTasks hlane).mpr ⟨mem_enumerate.mp hmem, rfl⟩⟩
      · rw [taskParts, List.nodup_flatten]
        refine ⟨?_, ?_⟩
        · intro part hpart
          obtain ⟨lane, -, rfl⟩ := List.mem_map.mp hpart
          exact nodup_laneTasks tasks hopened
        · rw [List.pairwise_map]
          refine List.Pairwise.imp_of_mem ?_
            (List.nodup_iff_pairwise_ne.mp List.nodup_range)
          intro lane lane' hlane hlane' hne entry hentry hentry'
          rw [List.mem_range] at hlane hlane'
          rw [mem_laneTasks hlane] at hentry
          rw [mem_laneTasks hlane'] at hentry'
          exact hne (hentry.2.symm.trans hentry'.2)

theorem executionMode_lanes
    {handle : Handle} {tasks opened : Nat} {totalRows : ℤ}
    (h : executionMode handle tasks totalRows = .lanes opened) :
    1 < opened := by
  unfold executionMode at h
  simp only at h
  split_ifs at h with _ _ _ _ hopened
  cases h
  exact hopened.1

end Partition

section Starts

/-- The tasks a lane gets to: those up to its first failure. -/
def laneRuns (native : NativeReader) : List (Nat × Task) → List (Nat × Task)
  | [] => []
  | entry :: rest =>
      entry ::
        if (columnTaskRun native entry.2).failure.isSome then
          []
        else
          laneRuns native rest

theorem laneActions_eq
    (native : NativeReader) (entries : List (Nat × Task)) :
    laneActions native entries =
      (laneRuns native entries).flatMap fun entry =>
        taskActions native entry.1 entry.2 := by
  induction entries with
  | nil =>
      rfl
  | cons entry rest ih =>
      rw [laneActions, laneRuns, List.flatMap_cons]
      split
      · simp
      · rw [ih]

theorem laneRuns_sublist
    (native : NativeReader) (entries : List (Nat × Task)) :
    (laneRuns native entries).Sublist entries := by
  induction entries with
  | nil =>
      exact List.Sublist.refl []
  | cons entry rest ih =>
      rw [laneRuns, List.cons_sublist_cons]
      split
      · exact List.nil_sublist rest
      · exact ih

/-- A lane whose tasks do not fail gets to all of them. -/
theorem laneRuns_of_no_failure
    {native : NativeReader} {entries : List (Nat × Task)}
    (h : ∀ entry ∈ entries, (columnTaskRun native entry.2).failure = none) :
    laneRuns native entries = entries := by
  induction entries with
  | nil =>
      rfl
  | cons entry rest ih =>
      have hrest := ih fun entry hentry => h entry (by simp [hentry])
      simp [laneRuns, h entry (by simp), hrest]

theorem not_start_mem_putCells
    (t column offset : Nat) (cells : List RCell) :
    Action.start t ∉ putCells column offset cells := by
  rw [mem_putCells]
  rintro ⟨k, cell, -, heq⟩
  cases heq

theorem count_start_taskActions
    (native : NativeReader) (t t' : Nat) (task : Task) :
    (taskActions native t' task).count (.start t) = [t'].count t := by
  rw [taskActions, List.cons_append, List.count_cons, List.count_append,
    List.count_eq_zero_of_not_mem (not_start_mem_putCells _ _ _ _)]
  simp [List.count_cons]

theorem count_start_flatMap
    (native : NativeReader) (t : Nat) (entries : List (Nat × Task)) :
    (entries.flatMap fun entry =>
        taskActions native entry.1 entry.2).count (.start t) =
      (entries.map Prod.fst).count t := by
  induction entries with
  | nil =>
      rfl
  | cons entry rest ih =>
      rw [List.flatMap_cons, List.count_append, ih, count_start_taskActions,
        ← List.count_append]
      rfl

theorem count_start_main (main : MainPass) (t : Nat) :
    main.actions.count (.start t) = 0 := by
  apply List.count_eq_zero_of_not_mem
  intro hmem
  obtain ⟨entry, -, hmem⟩ := List.mem_flatMap.mp hmem
  exact not_start_mem_putCells _ _ _ _ hmem

/-- Jobs run tasks one after the other. -/
theorem flatten_laneActions
    (native : NativeReader) (parts : List (List (Nat × Task))) :
    (parts.map (laneActions native)).flatten =
      (parts.map (laneRuns native)).flatten.flatMap fun entry =>
        taskActions native entry.1 entry.2 := by
  induction parts with
  | nil =>
      rfl
  | cons part parts ih =>
      simp only [List.map_cons, List.flatten_cons, List.flatMap_append]
      rw [ih, laneActions_eq]

/-- How often a task starts in the jobs of some parts. -/
theorem count_start_jobs
    (native : NativeReader) (t : Nat) (parts : List (List (Nat × Task))) :
    (parts.map (laneActions native)).flatten.count (.start t) =
      ((parts.map (laneRuns native)).flatten.map Prod.fst).count t := by
  rw [flatten_laneActions, count_start_flatMap]

theorem poolJobs_eq
    {native : NativeReader} {tasks : List Task} {mode : Mode}
    (hmode : mode ≠ .inline) :
    poolJobs native tasks mode =
      (taskParts tasks mode).map (laneActions native) := by
  cases mode with
  | inline =>
      exact absurd rfl hmode
  | pool =>
      simp [poolJobs, taskParts, enumerate, laneActions, Function.comp_def]
  | lanes opened =>
      simp [poolJobs, taskParts, Function.comp_def]

theorem primedJobs_sublist
    (native : NativeReader) (tasks : List Task) (mode : Mode) :
    (primedJobs native tasks mode).Sublist (poolJobs native tasks mode) := by
  cases mode with
  | inline =>
      exact List.Sublist.refl _
  | pool =>
      exact List.take_sublist _ _
  | lanes opened =>
      exact List.Sublist.refl _

theorem firstFailure_eq_none_iff
    {native : NativeReader} {tasks : List Task} :
    firstFailure native tasks = none ↔
      ∀ task ∈ tasks, (columnTaskRun native task).failure = none := by
  induction tasks with
  | nil =>
      simp [firstFailure]
  | cons task rest ih =>
      cases hfailure : (columnTaskRun native task).failure <;>
        simp [firstFailure, hfailure, ih]

/-- A collect that returns has seen no task fail. -/
theorem collectEnd_ok
    {native : NativeReader} {targets : List TargetColumn}
    {tasks : List Task} {rows : Nat} {main : MainPass} {heap : Heap}
    {r : ReadResult}
    (h : collectEnd native targets tasks rows main heap = .ok r) :
    firstFailure native tasks = none := by
  unfold collectEnd at h
  split at h
  · cases h
  · assumption

end Starts

section Runs

theorem flatten_laneRuns_sublist
    (native : NativeReader) (parts : List (List (Nat × Task))) :
    (parts.map (laneRuns native)).flatten.Sublist parts.flatten := by
  induction parts with
  | nil =>
      exact List.Sublist.refl _
  | cons part parts ih =>
      exact (laneRuns_sublist native part).append ih

/-- The jobs of a mode start a task at most once. -/
theorem count_start_parts_le
    (native : NativeReader) (tasks : List Task) {mode : Mode}
    (hmode : ∀ opened, mode = .lanes opened → 0 < opened) (t : Nat) :
    ((taskParts tasks mode).map (laneActions native)).flatten.count
        (.start t) ≤
      (List.range tasks.length).count t := by
  rw [count_start_jobs, ← map_fst_enumerate,
    ← ((flatten_taskParts_perm tasks hmode).map Prod.fst).count_eq]
  exact ((flatten_laneRuns_sublist native _).map Prod.fst).count_le t

/-- When no task fails the jobs of a mode start each task once. -/
theorem count_start_parts
    {native : NativeReader} {tasks : List Task} {mode : Mode}
    (hmode : ∀ opened, mode = .lanes opened → 0 < opened)
    (hok : ∀ task ∈ tasks, (columnTaskRun native task).failure = none)
    (t : Nat) :
    ((taskParts tasks mode).map (laneActions native)).flatten.count
        (.start t) =
      (List.range tasks.length).count t := by
  have hperm := flatten_taskParts_perm tasks hmode
  have hall : (taskParts tasks mode).map (laneRuns native) =
      taskParts tasks mode := by
    conv_rhs => rw [← List.map_id (taskParts tasks mode)]
    refine List.map_congr_left ?_
    intro part hpart
    apply laneRuns_of_no_failure
    intro entry hentry
    have hmem := hperm.mem_iff.mp (List.mem_flatten_of_mem hpart hentry)
    exact hok entry.2 (List.mem_of_getElem? (mem_enumerate.mp hmem))
  rw [count_start_jobs, hall, ← map_fst_enumerate]
  exact (hperm.map Prod.fst).count_eq t

theorem mode_lanes_pos
    (ctx : CollectContext) (handle : Handle) (targets : List TargetColumn)
    (opened : Nat) (h : ctx.mode handle targets = .lanes opened) :
    0 < opened :=
  Nat.lt_trans Nat.zero_lt_one (executionMode_lanes h)

theorem inline_parts
    (native : NativeReader) (tasks : List Task) :
    ((taskParts tasks .inline).map (laneActions native)).flatten =
      laneActions native (enumerate tasks) := by
  simp [taskParts]

end Runs

section Recorded

/-- The entries of a job come in the order of their tasks. -/
theorem taskParts_sorted
    (tasks : List Task) (mode : Mode) :
    ∀ part ∈ taskParts tasks mode,
      part.Pairwise fun first second => first.1 < second.1 := by
  have henumerate : (enumerate tasks).Pairwise
      fun first second => first.1 < second.1 := by
    have hrange : (List.range tasks.length).Pairwise (· < ·) :=
      List.pairwise_lt_range
    rwa [← map_fst_enumerate, List.pairwise_map] at hrange
  intro part hpart
  cases mode with
  | inline =>
      obtain rfl := List.mem_singleton.mp hpart
      exact henumerate
  | pool =>
      obtain ⟨entry, -, rfl⟩ := List.mem_map.mp hpart
      exact List.pairwise_singleton _ _
  | lanes opened =>
      obtain ⟨lane, -, rfl⟩ := List.mem_map.mp hpart
      rcases Nat.eq_zero_or_pos opened with rfl | hopened
      · simp [laneTasks]
      · rw [laneTasks, List.pairwise_filterMap]
        refine (List.pairwise_lt_range' opened hopened).imp ?_
        intro first second hlt entry hentry entry' hentry'
        obtain ⟨task, -, rfl⟩ := Option.map_eq_some_iff.mp hentry
        obtain ⟨task', -, rfl⟩ := Option.map_eq_some_iff.mp hentry'
        exact hlt

/-- A job gets to a task if no earlier task of the job fails. -/
theorem mem_laneRuns
    {native : NativeReader} {entries : List (Nat × Task)}
    {entry : Nat × Task}
    (hsorted : entries.Pairwise fun first second => first.1 < second.1)
    (hentry : entry ∈ entries)
    (hbefore : ∀ earlier ∈ entries, earlier.1 < entry.1 →
      (columnTaskRun native earlier.2).failure = none) :
    entry ∈ laneRuns native entries := by
  induction entries with
  | nil =>
      cases hentry
  | cons first rest ih =>
      rw [laneRuns]
      rcases List.mem_cons.mp hentry with rfl | hrest
      · exact List.mem_cons_self
      · rw [List.pairwise_cons] at hsorted
        have hok := hbefore first List.mem_cons_self
          (hsorted.1 entry hrest)
        have hmem := ih hsorted.2 hrest fun earlier hearlier =>
          hbefore earlier (List.mem_cons_of_mem first hearlier)
        simp [hok, hmem]

theorem finish_mem_taskActions
    (native : NativeReader) (t : Nat) (task : Task) :
    Action.finish t ∈ taskActions native t task := by
  simp [taskActions]

/-- The run of the jobs of a mode gets to every task before which none
fails. -/
theorem finish_mem_run
    {native : NativeReader} {tasks : List Task} {mode : Mode}
    {threads : List (List Action)} {run : List Action}
    {t : Nat} {task : Task}
    (hmode : ∀ opened, mode = .lanes opened → 0 < opened)
    (hthreads : ∀ part ∈ taskParts tasks mode,
      laneActions native part ∈ threads)
    (hrun : Interleaving threads run)
    (htask : tasks[t]? = some task)
    (hbefore : ∀ t' task', t' < t → tasks[t']? = some task' →
      (columnTaskRun native task').failure = none) :
    Action.finish t ∈ run := by
  have hparts := flatten_taskParts_perm tasks hmode
  have hentry : (t, task) ∈ (taskParts tasks mode).flatten :=
    hparts.mem_iff.mpr (mem_enumerate.mpr htask)
  obtain ⟨part, hpart, hentry⟩ := List.mem_flatten.mp hentry
  have hreached : (t, task) ∈ laneRuns native part := by
    refine mem_laneRuns (taskParts_sorted tasks mode part hpart) hentry ?_
    rintro ⟨t', task'⟩ hearlier hlt
    have hmem := hparts.mem_iff.mp (List.mem_flatten_of_mem hpart hearlier)
    exact hbefore t' task' hlt (mem_enumerate.mp hmem)
  rw [hrun.perm.mem_iff]
  refine List.mem_flatten_of_mem (hthreads part hpart) ?_
  rw [laneActions_eq]
  exact List.mem_flatMap.mpr
    ⟨_, hreached, finish_mem_taskActions native t task⟩

theorem finish_mem_inline
    {native : NativeReader} {tasks : List Task} (main : MainPass)
    {t : Nat} {task : Task}
    (htask : tasks[t]? = some task)
    (hbefore : ∀ t' task', t' < t → tasks[t']? = some task' →
      (columnTaskRun native task').failure = none) :
    Action.finish t ∈
      laneActions native (enumerate tasks) ++ main.actions := by
  have hthreads : ∀ part ∈ taskParts tasks .inline,
      laneActions native part ∈
        [laneActions native (enumerate tasks), main.actions] := by
    intro part hpart
    obtain rfl := List.mem_singleton.mp hpart
    exact List.mem_cons_self
  have hmem := finish_mem_run (by rintro opened ⟨⟩) hthreads
    (Interleaving.sequential _) htask hbefore
  simpa using hmem

theorem finish_mem_parallel
    {native : NativeReader} {tasks : List Task} {main : MainPass}
    {mode : Mode} {run : List Action} {t : Nat} {task : Task}
    (hmode : mode ≠ .inline)
    (hlanes : ∀ opened, mode = .lanes opened → 0 < opened)
    (hrun : Interleaving (main.actions :: poolJobs native tasks mode) run)
    (htask : tasks[t]? = some task)
    (hbefore : ∀ t' task', t' < t → tasks[t']? = some task' →
      (columnTaskRun native task').failure = none) :
    Action.finish t ∈ run := by
  rw [poolJobs_eq hmode] at hrun
  refine finish_mem_run hlanes ?_ hrun htask hbefore
  intro part hpart
  exact List.mem_cons_of_mem _ (List.mem_map_of_mem hpart)

/-- Leaving out entries after the first failure leaves the first failure. -/
theorem firstFailure_filter
    {native : NativeReader} {p : Nat × Task → Bool}
    {entries : List (Nat × Task)}
    (h : ∀ before entry after, entries = before ++ entry :: after →
      (∀ earlier ∈ before, (columnTaskRun native earlier.2).failure = none) →
      p entry = true) :
    firstFailure native ((entries.filter p).map Prod.snd) =
      firstFailure native (entries.map Prod.snd) := by
  induction entries with
  | nil =>
      rfl
  | cons entry rest ih =>
      have hentry : p entry = true :=
        h [] entry rest rfl fun earlier hearlier => by cases hearlier
      rw [List.filter_cons_of_pos hentry, List.map_cons, List.map_cons,
        firstFailure, firstFailure]
      cases hfailure : (columnTaskRun native entry.2).failure with
      | some failure =>
          rfl
      | none =>
          apply ih
          intro before entry' after hsplit hbefore
          refine h (entry :: before) entry' after (by rw [hsplit]; rfl) ?_
          intro earlier hearlier
          rcases List.mem_cons.mp hearlier with rfl | hearlier
          · exact hfailure
          · exact hbefore earlier hearlier

/-- The first failure the final loop sees is the first failure of all tasks,
whatever tasks the run left out. -/
theorem firstFailure_recordedTasks
    {native : NativeReader} {tasks : List Task} {run : List Action}
    (hfinish : ∀ t task, tasks[t]? = some task →
      (∀ t' task', t' < t → tasks[t']? = some task' →
        (columnTaskRun native task').failure = none) →
      Action.finish t ∈ run) :
    firstFailure native (recordedTasks run tasks) =
      firstFailure native tasks := by
  conv_rhs => rw [← map_snd_enumerate tasks]
  apply firstFailure_filter
  rintro before ⟨t, task⟩ after hsplit hbefore
  have htask : tasks[t]? = some task := by
    have hmem : (t, task) ∈ enumerate tasks := by
      rw [hsplit]
      simp
    exact mem_enumerate.mp hmem
  -- The entries before number `t` are those of the smaller numbers.
  have hsmaller (t' : Nat) (task' : Task) (hlt : t' < t)
      (htask' : tasks[t']? = some task') : (t', task') ∈ before := by
    have hmem : (t', task') ∈ before ++ (t, task) :: after := by
      rw [← hsplit]
      exact mem_enumerate.mpr htask'
    have hsorted := taskParts_sorted tasks .inline _ (List.mem_singleton_self _)
    rw [hsplit, List.pairwise_append, List.pairwise_cons] at hsorted
    rcases List.mem_append.mp hmem with hbefore | hrest
    · exact hbefore
    · rcases List.mem_cons.mp hrest with heq | hafter
      · obtain ⟨rfl, -⟩ := Prod.mk.inj heq
        exact absurd hlt (lt_irrefl _)
      · exact absurd (hsorted.2.1.1 _ hafter) (not_lt.mpr hlt.le)
  rw [decide_eq_true_eq]
  refine hfinish t task htask ?_
  intro t' task' hlt htask'
  exact hbefore _ (hsmaller t' task' hlt htask')

/-- A run that gets to every task records all of them. -/
theorem recordedTasks_eq_self
    {tasks : List Task} {run : List Action}
    (hfinish : ∀ t task, tasks[t]? = some task → Action.finish t ∈ run) :
    recordedTasks run tasks = tasks := by
  rw [recordedTasks, List.filter_eq_self.mpr, map_snd_enumerate]
  intro entry hentry
  rw [decide_eq_true_eq]
  exact hfinish entry.1 entry.2 (mem_enumerate.mp hentry)

end Recorded

section Ends

variable {ctx : CollectContext} {handle : Handle}
  {targets : List TargetColumn} {run : List Action}
  {result : Except ReadError ReadResult}

/-- No run starts a task twice. -/
theorem TaskRun.count_start_le
    (h : TaskRun ctx handle targets run result) (t : Nat) :
    run.count (.start t) ≤
      (List.range (ctx.tasks targets).length).count t := by
  have hle := count_start_parts_le ctx.native (ctx.tasks targets)
    (mode_lanes_pos ctx handle targets) t
  cases h with
  | inlineFailed hmode _ | inlineRaised hmode _ _ =>
      rwa [hmode, inline_parts] at hle
  | inlineDone hmode _ _ =>
      rw [hmode, inline_parts] at hle
      rw [List.count_append, count_start_main]
      exact hle
  | parallelRaised hmode _ hrun =>
      have hsub := (primedJobs_sublist ctx.native (ctx.tasks targets)
        (ctx.mode handle targets)).flatten
      rw [hrun.perm.count_eq]
      rw [← poolJobs_eq hmode] at hle
      exact (hsub.count_le _).trans hle
  | parallelDone hmode _ hrun =>
      rw [hrun.perm.count_eq, List.flatten_cons, List.count_append,
        count_start_main, Nat.zero_add, poolJobs_eq hmode]
      exact hle

/-- A run that returns has seen no task fail. -/
theorem TaskRun.noTaskFails
    {r : ReadResult}
    (h : TaskRun ctx handle targets run (.ok r)) :
    ∀ task ∈ ctx.tasks targets,
      (columnTaskRun ctx.native task).failure = none := by
  generalize hresult : Except.ok r = result at h
  cases h with
  | inlineFailed _ _ | inlineRaised _ _ _ | parallelRaised _ _ _ =>
      cases hresult
  | @inlineDone main _ _ _ =>
      rw [← firstFailure_eq_none_iff, ← firstFailure_recordedTasks
        fun t task => finish_mem_inline main]
      exact collectEnd_ok hresult.symm
  | parallelDone hmode _ hrun =>
      rw [← firstFailure_eq_none_iff, ← firstFailure_recordedTasks
        fun t task => finish_mem_parallel hmode
          (mode_lanes_pos ctx handle targets) hrun]
      exact collectEnd_ok hresult.symm

/-- A run that returns starts every task exactly once. -/
theorem TaskRun.count_start_of_ok
    {r : ReadResult}
    (h : TaskRun ctx handle targets run (.ok r)) (t : Nat) :
    run.count (.start t) =
      (List.range (ctx.tasks targets).length).count t := by
  have hcount := count_start_parts (mode_lanes_pos ctx handle targets)
    h.noTaskFails t
  generalize hresult : Except.ok r = result at h
  cases h with
  | inlineFailed _ _ | inlineRaised _ _ _ | parallelRaised _ _ _ =>
      cases hresult
  | inlineDone hmode hfail _ =>
      rw [hmode, inline_parts] at hcount
      rw [List.count_append, count_start_main]
      exact hcount
  | parallelDone hmode _ hrun =>
      rw [hrun.perm.count_eq, List.flatten_cons, List.count_append,
        count_start_main, Nat.zero_add, poolJobs_eq hmode]
      exact hcount

end Ends

section Readers

/-- A task has started and not finished. -/
def Running (run : List Action) (t : Nat) : Prop :=
  run.count (.start t) ≠ run.count (.finish t)

/-- The starts and finishes of the tasks that read through a reader. -/
def usesReader (lanes lane : Nat) : Action → Bool
  | .start t => t % lanes = lane
  | .put _ _ _ => false
  | .finish t => t % lanes = lane

theorem running_filter_iff
    {lanes t : Nat} {run : List Action} :
    Running (run.filter (usesReader lanes (t % lanes))) t ↔
      Running run t := by
  rw [Running, Running, List.count_filter (by simp [usesReader]),
    List.count_filter (by simp [usesReader])]

/-- Of tasks run one after the other at most one is running. -/
theorem running_unique_of_brackets
    {ids : List Nat} {run : List Action} {t t' : Nat}
    (hrun : run <+: ids.flatMap fun t => [.start t, .finish t])
    (ht : Running run t)
    (ht' : Running run t') :
    t = t' := by
  induction ids generalizing run with
  | nil =>
      rw [List.flatMap_nil, List.prefix_nil] at hrun
      subst hrun
      exact absurd rfl ht
  | cons id ids ih =>
      rw [List.flatMap_cons, List.cons_append, List.cons_append,
        List.nil_append] at hrun
      rcases List.prefix_cons_iff.mp hrun with rfl | ⟨run', rfl, hrun'⟩
      · exact absurd rfl ht
      rcases List.prefix_cons_iff.mp hrun' with rfl | ⟨run'', rfl, hrun''⟩
      · simp only [Running, List.count_singleton] at ht ht'
        simp at ht ht'
        rw [← ht, ← ht']
      · refine ih hrun'' ?_ ?_
        · simpa [Running, List.count_cons] using ht
        · simpa [Running, List.count_cons] using ht'

theorem putCells_usesReader
    (lanes lane column offset : Nat) (cells : List RCell) :
    ∀ a ∈ putCells column offset cells, usesReader lanes lane a = false := by
  intro a ha
  obtain ⟨k, cell, -, rfl⟩ := mem_putCells.mp ha
  rfl

theorem main_usesReader
    (lanes lane : Nat) (main : MainPass) :
    ∀ a ∈ main.actions, usesReader lanes lane a = false := by
  intro a ha
  obtain ⟨entry, -, ha⟩ := List.mem_flatMap.mp ha
  exact putCells_usesReader lanes lane _ _ _ a ha

theorem filter_usesReader_taskActions
    (native : NativeReader) (lanes t : Nat) (task : Task) (lane : Nat) :
    (taskActions native t task).filter (usesReader lanes lane) =
      if t % lanes = lane then [.start t, .finish t] else [] := by
  have hput := List.filter_eq_nil_iff.mpr fun a ha =>
    Bool.eq_false_iff.mp (putCells_usesReader lanes lane
      task.selectionIndex task.dstOffset (columnTaskRun native task).cells
      a ha)
  rw [taskActions, List.cons_append, List.filter_cons, List.filter_append,
    hput]
  split_ifs <;> simp_all [usesReader]

theorem filter_usesReader_flatMap
    (native : NativeReader) (lanes lane : Nat)
    (entries : List (Nat × Task)) :
    (entries.flatMap fun entry =>
        taskActions native entry.1 entry.2).filter (usesReader lanes lane) =
      ((entries.map Prod.fst).filter fun t => t % lanes = lane).flatMap
        fun t => [.start t, .finish t] := by
  induction entries with
  | nil =>
      rfl
  | cons entry rest ih =>
      rw [List.flatMap_cons, List.filter_append, ih,
        filter_usesReader_taskActions, List.map_cons, List.filter_cons]
      by_cases hlane : entry.1 % lanes = lane <;> simp [hlane]

/-- A lane does not touch the reader of another lane. -/
theorem laneActions_usesReader
    {native : NativeReader} {tasks : List Task} {lanes lane lane' : Nat}
    (hlane : lane < lanes)
    (hne : lane ≠ lane') :
    ∀ a ∈ laneActions native (laneTasks tasks lanes lane),
      usesReader lanes lane' a = false := by
  intro a ha
  rw [laneActions_eq] at ha
  obtain ⟨entry, hentry, ha⟩ := List.mem_flatMap.mp ha
  have hmod := ((mem_laneTasks hlane).mp
    ((laneRuns_sublist native _).mem hentry)).2
  have hnil := filter_usesReader_taskActions native lanes entry.1 entry.2
    lane'
  rw [hmod, if_neg hne, List.filter_eq_nil_iff] at hnil
  exact Bool.eq_false_iff.mpr (hnil a ha)

theorem lanes_exclusive
    (native : NativeReader) (tasks : List Task) (lanes lane : Nat) :
    ExclusiveTo (usesReader lanes lane)
      (poolJobs native tasks (.lanes lanes)) := by
  rw [ExclusiveTo, poolJobs, List.pairwise_map]
  refine List.Pairwise.imp_of_mem ?_
    (List.nodup_iff_pairwise_ne.mp List.nodup_range)
  intro first second hfirst hsecond hne
  rw [List.mem_range] at hfirst hsecond
  by_cases hlane : first = lane
  · right
    exact laneActions_usesReader hsecond (hlane ▸ hne.symm)
  · left
    exact laneActions_usesReader hfirst hlane

/-- In every interleaving of the lanes and a thread that runs no task, a
reader serves one task at a time. -/
theorem lanes_running_unique
    {native : NativeReader} {tasks : List Task} {lanes : Nat}
    {extra : List Action} {run part : List Action} {t t' : Nat}
    (hextra : ∀ lane, ∀ a ∈ extra, usesReader lanes lane a = false)
    (hrun : Interleaving (extra :: poolJobs native tasks (.lanes lanes)) run)
    (hpart : part <+: run)
    (ht : Running part t)
    (ht' : Running part t')
    (hreader : t % lanes = t' % lanes) :
    t = t' := by
  have hexclusive : ExclusiveTo (usesReader lanes (t % lanes))
      (extra :: poolJobs native tasks (.lanes lanes)) :=
    List.pairwise_cons.mpr
      ⟨fun _ _ => Or.inl (hextra _), lanes_exclusive native tasks lanes _⟩
  have hbrackets := hpart.filter (usesReader lanes (t % lanes))
  have hnil : extra.filter (usesReader lanes (t % lanes)) = [] :=
    List.filter_eq_nil_iff.mpr fun a ha =>
      Bool.eq_false_iff.mp (hextra _ a ha)
  rw [hrun.filter_eq hexclusive, List.flatten_cons, List.filter_append, hnil,
    List.nil_append, poolJobs_eq (by simp), flatten_laneActions,
    filter_usesReader_flatMap] at hbrackets
  refine running_unique_of_brackets hbrackets
    (running_filter_iff.mpr ht) ?_
  rw [hreader]
  exact running_filter_iff.mpr ht'

/-- In lane mode a reader serves one task at a time, at every moment of every
run. -/
theorem TaskRun.reader_exclusive
    {ctx : CollectContext} {handle : Handle}
    {targets : List TargetColumn} {run part : List Action}
    {result : Except ReadError ReadResult} {opened t t' : Nat}
    (h : TaskRun ctx handle targets run result)
    (hmode : ctx.mode handle targets = .lanes opened)
    (hpart : part <+: run)
    (ht : Running part t)
    (ht' : Running part t')
    (hreader : t % opened = t' % opened) :
    t = t' := by
  cases h with
  | inlineFailed hinline _ | inlineRaised hinline _ _
  | inlineDone hinline _ _ =>
      rw [hinline] at hmode
      cases hmode
  | parallelRaised _ _ hrun =>
      rw [hmode] at hrun
      exact lanes_running_unique (by simp) hrun.cons_nil hpart ht ht' hreader
  | @parallelDone main _ _ _ hrun =>
      rw [hmode] at hrun
      exact lanes_running_unique (fun lane => main_usesReader opened lane main)
        hrun hpart ht ht' hreader

end Readers

section Memory

/-- Every task on a thread of its own, next to the main thread. -/
def fineThreads
    (native : NativeReader) (tasks : List Task) (main : MainPass) :
    List (List Action) :=
  main.actions ::
    (enumerate tasks).map fun entry => taskActions native entry.1 entry.2

/-- The result vectors as the main thread and then all tasks leave them. -/
def filledHeap
    (native : NativeReader) (targets : List TargetColumn)
    (tasks : List Task) (main : MainPass) : Heap :=
  runStores Action.store (freshHeap targets)
    (fineThreads native tasks main).flatten

/-- Threads of the plan store to disjoint places. -/
theorem fineThreads_exclusive
    {native : NativeReader} {chunk : Nat}
    {groups : List GroupPlan} {targets : List TargetColumn}
    {main : MainPass}
    (hgroups : groups.Pairwise fun first second =>
      first.offset + first.rows ≤ second.offset)
    (htargets : (targets.map TargetColumn.index).Nodup)
    (hmain : mainPass native chunk (mainJobs groups targets) = .ok main)
    (place : Nat × Nat) :
    ExclusiveTo (storesTo Action.store place)
      (fineThreads native (numericTasks groups targets) main) := by
  have hnumeric {entry : Nat × Task}
      (hentry : entry ∈ enumerate (numericTasks groups targets)) :
      entry.2 ∈ numericTasks groups targets :=
    List.mem_of_getElem? (mem_enumerate.mp hentry)
  refine List.pairwise_cons.mpr ⟨?_, ?_⟩
  · intro actions hactions
    obtain ⟨entry, hentry, rfl⟩ := List.mem_map.mp hactions
    have htask := hnumeric hentry
    by_cases hcovers : entry.2.Covers place
    · exact Or.inl (mainPass_spares htargets hmain htask hcovers)
    · exact Or.inr
        (taskActions_spares (numeric_of_mem_numericTasks htask) hcovers)
  · have hpairs : (enumerate (numericTasks groups targets)).Pairwise
        fun first second =>
          ∀ place, ¬ first.2.Covers place ∨ ¬ second.2.Covers place := by
      have h := numericTasks_pairwise hgroups htargets
      rw [← map_snd_enumerate (numericTasks groups targets),
        List.pairwise_map] at h
      exact h
    rw [List.pairwise_map]
    refine hpairs.imp_of_mem ?_
    intro first second hfirst hsecond hdisjoint
    rcases hdisjoint place with hfree | hfree
    · exact Or.inl (taskActions_spares
        (numeric_of_mem_numericTasks (hnumeric hfirst)) hfree)
    · exact Or.inr (taskActions_spares
        (numeric_of_mem_numericTasks (hnumeric hsecond)) hfree)

/-- Grouping the tasks into jobs does not change what is stored. -/
theorem runStores_jobs
    {native : NativeReader} {tasks : List Task} {main : MainPass}
    {parts : List (List (Nat × Task))} {threads : List (List Action)}
    {run : List Action} (heap : Heap)
    (hexclusive : ∀ place, ExclusiveTo (storesTo Action.store place)
      (fineThreads native tasks main))
    (hparts : parts.flatten.Perm (enumerate tasks))
    (hok : ∀ task ∈ tasks, (columnTaskRun native task).failure = none)
    (hthreads :
      threads.Perm (main.actions :: parts.map (laneActions native)))
    (hrun : Interleaving threads run) :
    runStores Action.store heap run =
      runStores Action.store heap
        (fineThreads native tasks main).flatten := by
  have hlane {part : List (Nat × Task)} (hpart : part ∈ parts) :
      laneActions native part =
        (part.map fun entry =>
          taskActions native entry.1 entry.2).flatten := by
    rw [laneActions_eq, laneRuns_of_no_failure, List.flatMap_def]
    intro entry hentry
    have hmem := hparts.mem_iff.mp (List.mem_flatten_of_mem hpart hentry)
    exact hok entry.2 (List.mem_of_getElem? (mem_enumerate.mp hmem))
  let groups := [main.actions] :: parts.map fun part =>
    part.map fun entry => taskActions native entry.1 entry.2
  have hgrouped :
      main.actions :: parts.map (laneActions native) =
        groups.map List.flatten := by
    rw [List.map_cons, List.map_map, List.flatten_singleton]
    congr 1
    exact List.map_congr_left fun part hpart => hlane hpart
  have hperm : groups.flatten.Perm (fineThreads native tasks main) := by
    rw [List.flatten_cons, List.singleton_append, ← List.map_flatten]
    exact (hparts.map _).cons _
  have hgroups (place : Nat × Nat) :
      ExclusiveTo (storesTo Action.store place) groups.flatten :=
    (hexclusive place).perm hperm.symm
  rw [hgrouped] at hthreads
  have hexclusive' (place : Nat × Nat) :
      ExclusiveTo (storesTo Action.store place) threads :=
    (hgroups place).group.perm hthreads.symm
  rw [hrun.runStores_eq hexclusive',
    runStores_flatten_perm hthreads hexclusive', ← List.flatten_flatten,
    runStores_flatten_perm hperm hgroups]

end Memory

section Independence

/-- What a collect returns when no task fails. -/
def serialResult (ctx : CollectContext) (targets : List TargetColumn) :
    Except ReadError ReadResult := do
  let main ← ctx.main targets
  collectEnd ctx.native targets (ctx.tasks targets)
    ctx.selection.totalRows.toNat main
    (filledHeap ctx.native targets (ctx.tasks targets) main)

theorem context_exclusive
    {ctx : CollectContext} {targets : List TargetColumn} {main : MainPass}
    (halloc : allocateResult ctx.selection = .ok targets)
    (hmain : ctx.main targets = .ok main) (place : Nat × Nat) :
    ExclusiveTo (storesTo Action.store place)
      (fineThreads ctx.native (ctx.tasks targets) main) := by
  refine fineThreads_exclusive (groupPlans_pairwise 0 ctx.groups).2 ?_
    hmain place
  rw [(allocateResult_ok halloc).1]
  exact List.nodup_range

/-- When no task fails, how the tasks were run does not show. -/
theorem TaskRun.result_eq
    {ctx : CollectContext} {handle : Handle} {targets : List TargetColumn}
    {run : List Action} {result : Except ReadError ReadResult}
    (halloc : allocateResult ctx.selection = .ok targets)
    (h : TaskRun ctx handle targets run result)
    (hok : ∀ task ∈ ctx.tasks targets,
      (columnTaskRun ctx.native task).failure = none) :
    result = serialResult ctx targets := by
  have hperm := flatten_taskParts_perm (ctx.tasks targets)
    (mode_lanes_pos ctx handle targets)
  cases h with
  | inlineFailed _ hfail =>
      rw [firstFailure_eq_none_iff.mpr hok] at hfail
      cases hfail
  | inlineRaised _ _ hmain | parallelRaised _ hmain _ =>
      simp [serialResult, hmain]
  | @inlineDone main hmode _ hmain =>
      have hlane : [laneActions ctx.native (enumerate (ctx.tasks targets)),
          main.actions].Perm
          (main.actions ::
            (taskParts (ctx.tasks targets) .inline).map
              (laneActions ctx.native)) := List.Perm.swap _ _ _
      rw [hmode] at hperm
      have hstores := runStores_jobs (freshHeap targets)
        (context_exclusive halloc hmain) hperm hok hlane
        (Interleaving.sequential _)
      simp only [List.flatten_cons, List.flatten_nil,
        List.append_nil] at hstores
      have hrecorded := recordedTasks_eq_self fun t task htask =>
        finish_mem_inline main htask fun t' task' _ htask' =>
          hok task' (List.mem_of_getElem? htask')
      simp [serialResult, hmain, hstores, filledHeap, hrecorded]
  | parallelDone hmode hmain hrun =>
      have hrecorded := recordedTasks_eq_self fun t task htask =>
        finish_mem_parallel hmode (mode_lanes_pos ctx handle targets) hrun
          htask fun t' task' _ htask' =>
            hok task' (List.mem_of_getElem? htask')
      rw [poolJobs_eq hmode] at hrun
      have hstores := runStores_jobs (freshHeap targets)
        (context_exclusive halloc hmain) hperm hok (List.Perm.refl _) hrun
      simp [serialResult, hmain, hstores, filledHeap, hrecorded]

/-- What a collect returns when no task fails, empty reads included. -/
def collectResult (ctx : CollectContext) : Except ReadError ReadResult :=
  if 2 ^ 31 - 1 < ctx.selection.totalRows then
    .error .tooManyRows
  else do
    let targets ← allocateResult ctx.selection
    if ctx.selection.totalRows = 0 ∨ ctx.selection.columns = [] then
      return ⟨heapFrame targets ctx.selection.totalRows.toNat
          (freshHeap targets),
        targets.map fun _ => Flags.none⟩
    else
      serialResult ctx targets

/-- No task of the read fails. -/
def NoTaskFails (ctx : CollectContext) : Prop :=
  ∀ targets, allocateResult ctx.selection = .ok targets →
    ∀ task ∈ ctx.tasks targets,
      (columnTaskRun ctx.native task).failure = none

theorem CollectRun.result_eq
    {ctx : CollectContext} {handle : Handle} {run : List Action}
    {result : Except ReadError ReadResult}
    (h : CollectRun ctx handle run result)
    (hok : NoTaskFails ctx) :
    result = collectResult ctx := by
  unfold collectResult
  cases h with
  | tooManyRows hrows =>
      rw [if_pos hrows]
  | unsupported hrows halloc =>
      rw [if_neg (not_lt.mpr hrows), halloc]
      rfl
  | empty hrows halloc hempty =>
      rw [if_neg (not_lt.mpr hrows), halloc, ok_bind, if_pos hempty]
      rfl
  | read hrows halloc hrows' hcolumns hrun =>
      rw [if_neg (not_lt.mpr hrows), halloc, ok_bind,
        if_neg (not_or.mpr ⟨hrows', hcolumns⟩)]
      exact hrun.result_eq halloc (hok _ halloc)

theorem executionMode_serial
    {handle : Handle} {tasks : Nat} {totalRows : ℤ}
    (h : handle.threads = 1) :
    executionMode handle tasks totalRows = .inline := by
  simp [executionMode, h]

/-- One thread always has a run, which no other thread takes part in. -/
theorem exists_serial_run
    (ctx : CollectContext) {handle : Handle}
    (h : handle.threads = 1) :
    ∃ run result, CollectRun ctx handle run result := by
  by_cases hrows : 2 ^ 31 - 1 < ctx.selection.totalRows
  · exact ⟨_, _, .tooManyRows hrows⟩
  rw [not_lt] at hrows
  cases halloc : allocateResult ctx.selection with
  | error e =>
      exact ⟨_, _, .unsupported hrows halloc⟩
  | ok targets =>
      by_cases hempty :
          ctx.selection.totalRows = 0 ∨ ctx.selection.columns = []
      · exact ⟨_, _, .empty hrows halloc hempty⟩
      rw [not_or] at hempty
      have hmode : ctx.mode handle targets = .inline := executionMode_serial h
      suffices hrun : ∃ run result, TaskRun ctx handle targets run result by
        obtain ⟨run, result, hrun⟩ := hrun
        exact ⟨run, result, .read hrows halloc hempty.1 hempty.2 hrun⟩
      cases hfail : firstFailure ctx.native (ctx.tasks targets) with
      | some e =>
          exact ⟨_, _, .inlineFailed hmode hfail⟩
      | none =>
          cases hmain : ctx.main targets with
          | error e =>
              exact ⟨_, _, .inlineRaised hmode hfail hmain⟩
          | ok main =>
              exact ⟨_, _, .inlineDone hmode hfail hmain⟩

/-- A collect that returns has seen no task fail. -/
theorem CollectRun.noTaskFails
    {ctx : CollectContext} {handle : Handle} {run : List Action}
    {r : ReadResult}
    (h : CollectRun ctx handle run (.ok r))
    (hempty : ctx.selection.totalRows = 0 → ctx.plans = []) :
    NoTaskFails ctx := by
  intro targets halloc
  generalize hresult : Except.ok r = result at h
  cases h with
  | tooManyRows _ | unsupported _ _ =>
      cases hresult
  | empty _ halloc' hnone =>
      intro task htask
      obtain ⟨group, hgroup, target, htarget, -⟩ := mem_numericTasks.mp htask
      rcases hnone with hrows | hcolumns
      · rw [hempty hrows] at hgroup
        cases hgroup
      · have hmap := (allocateResult_ok halloc).2.1
        rw [hcolumns, List.map_eq_nil_iff] at hmap
        rw [hmap] at htarget
        cases htarget
  | read _ halloc' _ _ hrun =>
      rw [halloc] at halloc'
      cases halloc'
      subst hresult
      exact hrun.noTaskFails

end Independence

end Read
end QioParquet
