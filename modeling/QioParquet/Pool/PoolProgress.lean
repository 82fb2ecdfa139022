import QioParquet.Pool.PoolLaws
import QioParquet.Read.CollectLaws
import Mathlib.Tactic

/-!
# The worker pool does not get stuck

No wake-up is missed: as long as the owner has a call to make, some thread can go on that
was not woken for no reason. And it comes to an end: each step takes something from a store
that is known at the start, and only wake-ups for no reason put something back. So whoever
goes next, all calls are made in the end, and with the pool destroyed everything that was
submitted has been done.

At the end this is put under `collect()`: the run of a pool with the calls that it makes is
one of the runs its result was shown not to depend on.
-/

namespace QioParquet
namespace Pool

open Lib Read

variable {α : Type}

section Enabled

variable {s : State α} {queued : List (List α)}

/-- A worker that is awake has something to do. -/
theorem Sound.workerTurn_isSome
    (h : Sound s queued)
    {worker : Worker α} {i : Nat}
    (hworker : s.workers[i]? = some worker)
    (hawake : worker ≠ .sleeping) (hhere : worker ≠ .exited) :
    (workerTurn s i).isSome := by
  rw [workerTurn, hworker]
  cases worker with
  | sleeping =>
      exact absurd rfl hawake
  | exited =>
      exact absurd rfl hhere
  | running task done =>
      dsimp only
      cases task[done]? <;> rfl
  | checking =>
      dsimp only
      split_ifs with hsleep hexit
      · rfl
      · rfl
      · cases queued with
        | nil =>
            cases hshutdown : s.shutdown with
            | false => exact absurd ⟨h.count, hshutdown⟩ hsleep
            | true => exact absurd ⟨hshutdown, h.count⟩ hexit
        | cons task queued =>
            rw [h.queue.front]
            rfl

/-- A signal finds a sleeper if there is one. -/
theorem exists_signalWork (workers : List (Worker α)) :
    ∃ woken, (signalWork woken workers).isSome := by
  by_cases hsleeping : workers.any Worker.isSleeping
  · obtain ⟨worker, hworker, hasleep⟩ := List.any_eq_true.mp hsleeping
    obtain ⟨woken, hwoken⟩ := List.getElem?_of_mem hworker
    refine ⟨woken, ?_⟩
    cases worker with
    | sleeping =>
        rw [signalWork, if_pos hsleeping, hwoken]
        rfl
    | checking => cases hasleep
    | running task done => cases hasleep
    | exited => cases hasleep
  · exact ⟨0, by rw [signalWork, if_neg hsleeping]; rfl⟩

/-- While the owner is awake it can make its next call. -/
theorem exists_ownerTurn
    (howner : s.owner = .awake) (hcalls : s.calls ≠ []) :
    ∃ woken, (ownerTurn s woken).isSome := by
  obtain ⟨call, calls, hcall⟩ := List.exists_cons_of_ne_nil hcalls
  obtain ⟨woken, hwoken⟩ := exists_signalWork s.workers
  refine ⟨woken, ?_⟩
  rw [ownerTurn, howner, hcall]
  cases call with
  | submit task =>
      dsimp only
      rw [submitTurn]
      split_ifs
      · rfl
      · rwa [Option.isSome_map]
  | submitBatch tasks => rfl
  | wait => rfl
  | destroy => rfl
  | own actions => cases actions <;> rfl

/-- A worker that is neither asleep nor gone can go on. -/
theorem Sound.exists_workerTurn
    (h : Sound s queued)
    {worker : Worker α} (hworker : worker ∈ s.workers)
    (hawake : worker ≠ .sleeping) (hhere : worker ≠ .exited) :
    ∃ turn : Turn, turn.spurious = false ∧ (takeTurn s turn).isSome := by
  obtain ⟨i, hi⟩ := List.getElem?_of_mem hworker
  exact ⟨.worker i, rfl, h.workerTurn_isSome hi hawake hhere⟩

/-- With a task in the queue, a worker can go on. -/
theorem Sound.exists_workerTurn_of_queued
    (h : Sound s queued)
    (hqueued : queued ≠ []) :
    ∃ turn : Turn, turn.spurious = false ∧ (takeTurn s turn).isSome := by
  obtain ⟨worker, hworker, hawake⟩ := h.awake hqueued
  refine h.exists_workerTurn hworker hawake ?_
  rintro rfl
  exact hqueued (h.workers _ hworker).2

/-- As long as a call is left, somebody can go on. -/
theorem Sound.exists_turn
    (h : Sound s queued)
    (hcalls : s.calls ≠ []) :
    ∃ turn : Turn, turn.spurious = false ∧ (takeTurn s turn).isSome := by
  have howner := h.owner
  rw [ownerSound] at howner
  cases hcase : s.owner with
  | awake =>
      obtain ⟨woken, hwoken⟩ := exists_ownerTurn hcase hcalls
      exact ⟨.owner woken, rfl, hwoken⟩
  | sleepingNotFull =>
      rw [hcase] at howner
      apply h.exists_workerTurn_of_queued
      rintro rfl
      have hroom : poolQueueCapacity ≤ 0 := howner.1
      exact absurd hroom (by decide)
  | sleepingDone =>
      rw [hcase] at howner
      rcases howner.1 with hqueued | hactive
      · exact h.exists_workerTurn_of_queued hqueued
      · rw [h.active, List.countP_pos_iff] at hactive
        obtain ⟨worker, hworker, hrunning⟩ := hactive
        refine h.exists_workerTurn hworker ?_ ?_
        · rintro rfl
          cases hrunning
        · rintro rfl
          cases hrunning
  | joining =>
      rw [hcase] at howner
      by_cases hexited : s.workers.all Worker.isExited
      · refine ⟨.owner 0, rfl, ?_⟩
        rw [takeTurn, ownerTurn, hcase, howner.2]
        dsimp only
        rw [if_pos hexited]
        rfl
      · obtain ⟨worker, hworker, hhere⟩ := List.all_eq_false.mp (Bool.not_eq_true _ ▸ hexited)
        refine h.exists_workerTurn hworker ?_ ?_
        · rintro rfl
          have hsound := h.workers _ hworker
          rw [workerSound, howner.1] at hsound
          cases hsound
        · rintro rfl
          exact hhere rfl

end Enabled

section Ends

/-- What is left to do with a task in the queue: to take it, which may wake the owner, to do
it, and to finish it, which may wake the owner again. -/
def queuedWork (threads : Nat) (task : List α) : Nat :=
  task.length + 2 * threads + 8

def workerWork (threads : Nat) : Worker α → Nat
  | .checking => 1
  | .sleeping => 0
  | .running task done => task.length - done + threads + 4
  | .exited => 0

/-- An owner that is awake may wake all workers before it sleeps. -/
def ownerWork (threads : Nat) : Owner → Nat
  | .awake => threads + 2
  | .joining => 1
  | _ => 0

def callWork (threads : Nat) : Call α → Nat
  | .submit task => queuedWork threads task + 2
  | .submitBatch tasks => (tasks.map (queuedWork threads)).sum + threads + 1
  | .wait => 1
  | .destroy => threads + 2
  | .own actions => actions.length + 1

/-- The work that is left for so many threads. -/
def workLeft (threads : Nat) (s : State α) (queued : List (List α)) : Nat :=
  (s.workers.map (workerWork threads)).sum + (queued.map (queuedWork threads)).sum +
    ownerWork threads s.owner + (s.calls.map (callWork threads)).sum

variable {s s' : State α} {queued queued' : List (List α)}

theorem sum_workerWork_replace
    (threads : Nat) (before after : List (Worker α)) (worker worker' : Worker α) :
    ((before ++ worker' :: after).map (workerWork threads)).sum + workerWork threads worker =
      ((before ++ worker :: after).map (workerWork threads)).sum +
        workerWork threads worker' := by
  simp only [List.map_append, List.map_cons, List.sum_append, List.sum_cons]
  omega

theorem Signalled.work_le
    {workers workers' : List (Worker α)}
    (h : Signalled workers workers') (threads : Nat) :
    (workers'.map (workerWork threads)).sum ≤ (workers.map (workerWork threads)).sum + 1 := by
  cases h with
  | nobody _ =>
      omega
  | one before after =>
      have hreplace := sum_workerWork_replace threads before after .sleeping .checking
      simp only [workerWork] at hreplace
      omega

theorem Signalled.length
    {workers workers' : List (Worker α)}
    (h : Signalled workers workers') :
    workers'.length = workers.length := by
  cases h with
  | nobody _ => rfl
  | one before after => rw [List.length_append, List.length_append]; rfl

theorem workerWork_wake_le (threads : Nat) (worker : Worker α) :
    workerWork threads worker.wake ≤ workerWork threads worker + 1 := by
  cases worker <;> simp [Worker.wake, workerWork]

theorem broadcastWork_work_le (threads : Nat) (workers : List (Worker α)) :
    ((broadcastWork workers).map (workerWork threads)).sum ≤
      (workers.map (workerWork threads)).sum + workers.length := by
  induction workers with
  | nil =>
      rfl
  | cons worker workers ih =>
      have hfirst := workerWork_wake_le threads worker
      simp only [broadcastWork, List.map_cons, List.sum_cons, List.length_cons] at ih ⊢
      omega

theorem ownerWork_wakeFrom_le (threads : Nat) (owner condition : Owner) :
    ownerWork threads (owner.wakeFrom condition) ≤ ownerWork threads owner + (threads + 2) := by
  rw [Owner.wakeFrom]
  split_ifs
  · simp only [ownerWork]
    omega
  · omega

theorem Step.length_workers
    {spurious : Bool} {event : Event α}
    (hstep : Step s spurious event s') :
    s'.workers.length = s.workers.length := by
  cases hstep with
  | submit howner hcalls hroom hsignal => exact hsignal.length
  | batch howner hcalls hroom => exact List.length_map _
  | batchFull howner hcalls hfull => exact List.length_map _
  | destroy howner hcalls => exact List.length_map _
  | full => rfl
  | waitMore => rfl
  | waited => rfl
  | joined => rfl
  | ownAct => rfl
  | ownEnd => rfl
  | ownerWakes => rfl
  | sleep hworkers => rw [hworkers, List.length_append, List.length_append]; rfl
  | exit hworkers => rw [hworkers, List.length_append, List.length_append]; rfl
  | start hworkers => rw [hworkers, List.length_append, List.length_append]; rfl
  | act hworkers => rw [hworkers, List.length_append, List.length_append]; rfl
  | finish hworkers => rw [hworkers, List.length_append, List.length_append]; rfl
  | workerWakes hworkers => rw [hworkers, List.length_append, List.length_append]; rfl

/-- What a step of a worker does to its own share of the work. -/
theorem workLeft_replace
    {threads : Nat} {before after : List (Worker α)} {worker worker' : Worker α}
    (hworkers : s.workers = before ++ worker :: after)
    {owner : Owner} (hqueue : s'.calls = s.calls) (howner : s'.owner = owner)
    (hworkers' : s'.workers = before ++ worker' :: after)
    (hless : workerWork threads worker' + (queued'.map (queuedWork threads)).sum +
        ownerWork threads owner + 1 ≤
      workerWork threads worker + (queued.map (queuedWork threads)).sum +
        ownerWork threads s.owner) :
    workLeft threads s' queued' + 1 ≤ workLeft threads s queued := by
  have hreplace := sum_workerWork_replace threads before after worker worker'
  rw [workLeft, workLeft, hworkers, hworkers', hqueue, howner]
  omega

/-- Every step that is not a wake-up for no reason takes from the work that is left. -/
theorem Sound.workLeft_step
    {threads : Nat} {spurious : Bool} {event : Event α}
    (h : Sound s queued)
    (hthreads : s.workers.length = threads)
    (hstep : Step s spurious event s')
    (hqueued : queued ++ event.enqueues = event.starts ++ queued') :
    workLeft threads s' queued' + 1 ≤
      workLeft threads s queued + if spurious then threads + 3 else 0 := by
  cases hstep with
  | sleep hworkers hempty hopen =>
      obtain rfl : queued = queued' := (List.append_nil queued).symm.trans hqueued
      exact workLeft_replace hworkers rfl rfl rfl (by simp only [workerWork]; omega)
  | exit hworkers hempty hclosed =>
      obtain rfl : queued = queued' := (List.append_nil queued).symm.trans hqueued
      exact workLeft_replace hworkers rfl rfl rfl (by simp only [workerWork]; omega)
  | @start before after task hworkers hsome hfront =>
      have hwake := ownerWork_wakeFrom_le threads s.owner .sleepingNotFull
      obtain rfl : queued = task :: queued' := (List.append_nil queued).symm.trans hqueued
      refine workLeft_replace hworkers rfl rfl rfl ?_
      simp only [workerWork, List.map_cons, List.sum_cons, queuedWork]
      omega
  | @act before after task done a hworkers ha =>
      obtain ⟨hlt, -⟩ := List.getElem?_eq_some_iff.mp ha
      obtain rfl : queued = queued' := (List.append_nil queued).symm.trans hqueued
      exact workLeft_replace hworkers rfl rfl rfl (by simp only [workerWork]; omega)
  | @finish before after task done hworkers hend =>
      have hwake := ownerWork_wakeFrom_le threads s.owner .sleepingDone
      obtain rfl : queued = queued' := (List.append_nil queued).symm.trans hqueued
      refine workLeft_replace hworkers rfl rfl rfl ?_
      simp only [workerWork]
      split_ifs <;> omega
  | full howner hcalls hfull =>
      obtain rfl : queued = queued' := (List.append_nil queued).symm.trans hqueued
      simp only [workLeft, howner, ownerWork]
      omega
  | @submit task calls workers howner hcalls hroom hsignal =>
      have hwork := hsignal.work_le threads
      obtain rfl : queued ++ _ = queued' := hqueued
      simp only [workLeft, hcalls, Event.enqueues, List.map_append, List.map_cons, List.map_nil,
        List.sum_append, List.sum_cons, List.sum_nil, callWork]
      omega
  | @batch tasks calls howner hcalls hroom =>
      have hwork := broadcastWork_work_le threads s.workers
      obtain rfl : queued ++ _ = queued' := hqueued
      simp only [workLeft, hcalls, Event.enqueues, List.map_append, List.map_cons,
        List.sum_append, List.sum_cons, callWork]
      omega
  | @batchFull tasks calls howner hcalls hfull =>
      have hwork := broadcastWork_work_le threads s.workers
      have hsplit : (tasks.map (queuedWork threads)).sum =
          ((tasks.take (poolQueueCapacity - s.queue.count)).map (queuedWork threads)).sum +
            ((tasks.drop (poolQueueCapacity - s.queue.count)).map (queuedWork threads)).sum := by
        rw [← List.sum_append, ← List.map_append, List.take_append_drop]
      obtain rfl : queued ++ _ = queued' := hqueued
      simp only [workLeft, howner, hcalls, Event.enqueues, List.map_append, List.map_cons,
        List.sum_append, List.sum_cons, callWork, ownerWork]
      omega
  | waitMore howner hcalls hmore =>
      obtain rfl : queued = queued' := (List.append_nil queued).symm.trans hqueued
      simp only [workLeft, howner, ownerWork]
      omega
  | waited howner hcalls hempty hidle =>
      obtain rfl : queued = queued' := (List.append_nil queued).symm.trans hqueued
      simp only [workLeft, hcalls, List.map_cons, List.sum_cons, callWork]
      omega
  | destroy howner hcalls =>
      have hwork := broadcastWork_work_le threads s.workers
      obtain rfl : queued = queued' := (List.append_nil queued).symm.trans hqueued
      simp only [workLeft, howner, ownerWork]
      omega
  | joined howner hcalls hexited =>
      obtain rfl : queued = queued' := (List.append_nil queued).symm.trans hqueued
      simp only [workLeft, howner, hcalls, List.map_cons, List.sum_cons, callWork, ownerWork]
      omega
  | ownAct howner hcalls =>
      obtain rfl : queued = queued' := (List.append_nil queued).symm.trans hqueued
      simp only [workLeft, hcalls, List.map_cons, List.sum_cons, callWork, List.length_cons]
      omega
  | ownEnd howner hcalls =>
      obtain rfl : queued = queued' := (List.append_nil queued).symm.trans hqueued
      simp only [workLeft, hcalls, List.map_cons, List.sum_cons, callWork]
      omega
  | @workerWakes before after hworkers =>
      obtain rfl : queued = queued' := (List.append_nil queued).symm.trans hqueued
      have hreplace := sum_workerWork_replace threads before after .sleeping .checking
      simp only [workerWork] at hreplace
      simp only [workLeft, hworkers, if_true]
      omega
  | ownerWakes howner =>
      obtain rfl : queued = queued' := (List.append_nil queued).symm.trans hqueued
      simp only [workLeft, if_true]
      rw [show ownerWork threads Owner.awake = threads + 2 from rfl]
      omega

/-- The turns of a run are bounded by the work there was, and the wake-ups for no reason. -/
theorem Sound.run_length_le
    {threads : Nat} {turns : List Turn} {events : List (Event α)}
    (h : Sound s queued)
    (hthreads : s.workers.length = threads)
    (hrun : Pool.run s turns = some (events, s')) :
    turns.length ≤ workLeft threads s queued + (threads + 3) * turns.countP Turn.spurious := by
  induction turns generalizing s queued events with
  | nil =>
      exact Nat.zero_le _
  | cons turn turns ih =>
      rw [Pool.run] at hrun
      obtain ⟨⟨event, s₁⟩, hturn, hrest⟩ := Option.bind_eq_some_iff.mp hrun
      obtain ⟨⟨events₁, s₂⟩, hrun₁, heq⟩ := Option.map_eq_some_iff.mp hrest
      cases heq
      obtain ⟨queued₁, hqueued, hsound⟩ := h.step (.of_takeTurn hturn)
      have hless := h.workLeft_step hthreads (.of_takeTurn hturn) hqueued
      have hbound := ih hsound ((Step.of_takeTurn hturn).length_workers.trans hthreads) hrun₁
      rw [List.length_cons, List.countP_cons, Nat.mul_add]
      split_ifs at hless ⊢ <;> omega

end Ends

section Completion

variable {s s' : State α} {queued : List (List α)} {numThreads : Nat} {calls : List (Call α)}
    {turns : List Turn} {events : List (Event α)}

/-- The work there is at the start. -/
def totalWork (numThreads : Nat) (calls : List (Call α)) : Nat :=
  2 * numThreads + 2 + (calls.map (callWork numThreads)).sum

theorem workLeft_createPool (numThreads : Nat) (calls : List (Call α)) :
    workLeft numThreads (createPool numThreads calls) [] = totalWork numThreads calls := by
  simp only [workLeft, createPool, totalWork, List.map_replicate, List.sum_replicate, workerWork,
    ownerWork, List.map_nil, List.sum_nil, smul_eq_mul]
  omega

/-- Whoever goes next, the pool never gets stuck before all calls have been made, and it
cannot go on for ever: apart from wake-ups for no reason, there are no more steps than the
work known at the start. -/
theorem pool_comes_to_its_end
    (hthreads : 0 < numThreads) (hlast : destroyedLast calls)
    (hrun : run (createPool numThreads calls) turns = some (events, s)) :
    (s.calls ≠ [] → ∃ turn : Turn, turn.spurious = false ∧ (takeTurn s turn).isSome) ∧
      turns.length ≤
        totalWork numThreads calls + (numThreads + 3) * turns.countP Turn.spurious := by
  have hstart := createPool_sound hthreads hlast
  obtain ⟨queued, -, hsound⟩ := hstart.run hrun
  refine ⟨hsound.exists_turn, ?_⟩
  rw [← workLeft_createPool]
  exact hstart.run_length_le List.length_replicate hrun

theorem pool_comes_to_its_end_sample :
    ∃ events s, run (createPool 2 sampleCalls) sampleTurns = some (events, s) ∧
      (s.calls ≠ [] → ∃ turn : Turn, turn.spurious = false ∧ (takeTurn s turn).isSome) ∧
      sampleTurns.length ≤
        totalWork 2 sampleCalls + (2 + 3) * sampleTurns.countP Turn.spurious := by
  obtain ⟨⟨events, s⟩, hrun⟩ := Option.isSome_iff_exists.mp
    (show (run (createPool 2 sampleCalls) sampleTurns).isSome by decide +kernel)
  exact ⟨events, s, hrun, pool_comes_to_its_end (by norm_num)
    (show destroyedLast sampleCalls from trivial) hrun⟩

/-- The tasks that a call submits. -/
def Call.tasks : Call α → List (List α)
  | .submit task => [task]
  | .submitBatch tasks => tasks
  | _ => []

/-- The owner's work in a call. -/
def Call.ownActions : Call α → List α
  | .own actions => actions
  | _ => []

/-- What is submitted and done by the owner is what the calls say. -/
theorem Step.calls_eq
    {spurious : Bool} {event : Event α}
    (hstep : Step s spurious event s') :
    event.enqueues ++ s'.calls.flatMap Call.tasks = s.calls.flatMap Call.tasks ∧
      event.ownActs ++ s'.calls.flatMap Call.ownActions = s.calls.flatMap Call.ownActions := by
  cases hstep with
  | submit howner hcalls hroom hsignal => rw [hcalls]; exact ⟨rfl, rfl⟩
  | batch howner hcalls hroom => rw [hcalls]; exact ⟨rfl, rfl⟩
  | @batchFull tasks calls howner hcalls hfull =>
      rw [hcalls]
      refine ⟨?_, rfl⟩
      simp only [Event.enqueues, List.flatMap_cons, Call.tasks]
      rw [← List.append_assoc, List.take_append_drop]
  | waited howner hcalls hempty hidle => rw [hcalls]; exact ⟨rfl, rfl⟩
  | joined howner hcalls hexited => rw [hcalls]; exact ⟨rfl, rfl⟩
  | ownAct howner hcalls => rw [hcalls]; exact ⟨rfl, rfl⟩
  | ownEnd howner hcalls => rw [hcalls]; exact ⟨rfl, rfl⟩
  | sleep => exact ⟨rfl, rfl⟩
  | exit => exact ⟨rfl, rfl⟩
  | start => exact ⟨rfl, rfl⟩
  | act => exact ⟨rfl, rfl⟩
  | finish => exact ⟨rfl, rfl⟩
  | full => exact ⟨rfl, rfl⟩
  | waitMore => exact ⟨rfl, rfl⟩
  | destroy => exact ⟨rfl, rfl⟩
  | workerWakes => exact ⟨rfl, rfl⟩
  | ownerWakes => exact ⟨rfl, rfl⟩

/-- The pool is going to be destroyed, or all workers are gone. -/
def Ending (s : State α) : Prop :=
  s.calls.getLast? = some .destroy ∨ s.calls = [] ∧ ∀ worker ∈ s.workers, worker = .exited

theorem Ending.step
    {spurious : Bool} {event : Event α}
    (h : Ending s)
    (hstep : Step s spurious event s') :
    Ending s' := by
  have hcall : ∀ {call : Call α} {calls : List (Call α)}, s.calls = call :: calls →
      call ≠ .destroy → calls.getLast? = some .destroy := by
    intro call calls hcalls hother
    rcases h with hlast | ⟨hnone, -⟩
    · rw [hcalls] at hlast
      cases calls with
      | nil =>
          rw [List.getLast?_singleton, Option.some.injEq] at hlast
          exact absurd hlast hother
      | cons next calls =>
          rwa [List.getLast?_cons_cons] at hlast
    · rw [hnone] at hcalls
      cases hcalls
  have hworker : ∀ {before after : List (Worker α)} {worker : Worker α},
      s.workers = before ++ worker :: after → worker ≠ .exited →
      s.calls.getLast? = some .destroy := by
    intro before after worker hworkers hhere
    rcases h with hlast | ⟨-, hexited⟩
    · exact hlast
    · exact absurd (hexited worker (by rw [hworkers]; simp)) hhere
  cases hstep with
  | submit howner hcalls hroom hsignal => exact .inl (hcall hcalls (by rintro ⟨⟩))
  | batch howner hcalls hroom => exact .inl (hcall hcalls (by rintro ⟨⟩))
  | @batchFull tasks calls howner hcalls hfull =>
      have hlast := hcall hcalls (by rintro ⟨⟩)
      left
      cases calls with
      | nil => cases hlast
      | cons next calls => exact hlast
  | waited howner hcalls hempty hidle => exact .inl (hcall hcalls (by rintro ⟨⟩))
  | @joined calls howner hcalls hexited =>
      cases calls with
      | nil => exact .inr ⟨rfl, hexited⟩
      | cons next calls =>
          left
          rcases h with hlast | ⟨hnone, -⟩
          · rw [hcalls, List.getLast?_cons_cons] at hlast
            exact hlast
          · rw [hnone] at hcalls
            cases hcalls
  | @ownAct a rest calls howner hcalls =>
      have hlast := hcall hcalls (by rintro ⟨⟩)
      left
      cases calls with
      | nil => cases hlast
      | cons next calls => exact hlast
  | ownEnd howner hcalls => exact .inl (hcall hcalls (by rintro ⟨⟩))
  | sleep hworkers => exact .inl (hworker hworkers (by rintro ⟨⟩))
  | exit hworkers => exact .inl (hworker hworkers (by rintro ⟨⟩))
  | start hworkers => exact .inl (hworker hworkers (by rintro ⟨⟩))
  | act hworkers => exact .inl (hworker hworkers (by rintro ⟨⟩))
  | finish hworkers => exact .inl (hworker hworkers (by rintro ⟨⟩))
  | workerWakes hworkers => exact .inl (hworker hworkers (by rintro ⟨⟩))
  | full => exact h
  | waitMore => exact h
  | ownerWakes => exact h
  | @destroy calls howner hcalls =>
      rcases h with hlast | ⟨hnone, -⟩
      · exact .inl hlast
      · rw [hnone] at hcalls
        cases hcalls

/-- What was submitted and done by the owner in a run, and how it stands at its end. -/
theorem run_calls
    (h : Ending s)
    (hrun : run s turns = some (events, s')) :
    enqueuedOf events ++ s'.calls.flatMap Call.tasks = s.calls.flatMap Call.tasks ∧
      ownOf events ++ s'.calls.flatMap Call.ownActions = s.calls.flatMap Call.ownActions ∧
      Ending s' := by
  induction turns generalizing s events with
  | nil =>
      cases hrun
      exact ⟨rfl, rfl, h⟩
  | cons turn turns ih =>
      rw [run] at hrun
      obtain ⟨⟨event, s₁⟩, hturn, hrest⟩ := Option.bind_eq_some_iff.mp hrun
      obtain ⟨⟨events₁, s₂⟩, hrun₁, heq⟩ := Option.map_eq_some_iff.mp hrest
      cases heq
      obtain ⟨htasks, hown⟩ := (Step.of_takeTurn hturn).calls_eq
      obtain ⟨htasks₁, hown₁, hending⟩ := ih (h.step (.of_takeTurn hturn)) hrun₁
      refine ⟨?_, ?_, hending⟩
      · rw [enqueuedOf, List.flatMap_cons, List.append_assoc, ← enqueuedOf, htasks₁, htasks]
      · rw [ownOf, List.flatMap_cons, List.append_assoc, ← ownOf, hown₁, hown]

/-- There is a run to where nobody can go on. The induction is on the work that is left. -/
theorem Sound.exists_stuck_run
    {threads : Nat} (work : Nat)
    (h : Sound s queued)
    (hthreads : s.workers.length = threads)
    (hwork : workLeft threads s queued ≤ work) :
    ∃ turns events s', Pool.run s turns = some (events, s') ∧
      ∀ turn : Turn, turn.spurious = false → takeTurn s' turn = none := by
  induction work generalizing s queued with
  | zero =>
      refine ⟨[], [], s, rfl, fun turn hturn => ?_⟩
      by_contra hsome
      obtain ⟨⟨event, s₁⟩, hstep⟩ := Option.ne_none_iff_exists'.mp hsome
      obtain ⟨queued₁, hqueued, -⟩ := h.step (.of_takeTurn hstep)
      have hless := h.workLeft_step hthreads (.of_takeTurn hstep) hqueued
      rw [hturn] at hless
      simp only [Bool.false_eq_true, if_false] at hless
      omega
  | succ work ih =>
      by_cases hmore : ∃ turn : Turn, turn.spurious = false ∧ (takeTurn s turn).isSome
      · obtain ⟨turn, hturn, hsome⟩ := hmore
        obtain ⟨⟨event, s₁⟩, hstep⟩ := Option.isSome_iff_exists.mp hsome
        obtain ⟨queued₁, hqueued, hsound⟩ := h.step (.of_takeTurn hstep)
        have hless := h.workLeft_step hthreads (.of_takeTurn hstep) hqueued
        rw [hturn] at hless
        simp only [Bool.false_eq_true, if_false] at hless
        obtain ⟨turns, events, s', hrun, hstuck⟩ := ih hsound
          ((Step.of_takeTurn hstep).length_workers.trans hthreads) (by omega)
        refine ⟨turn :: turns, event :: events, s', ?_, hstuck⟩
        rw [Pool.run, hstep, Option.bind_some]
        dsimp only
        rw [hrun, Option.map_some]
      · refine ⟨[], [], s, rfl, fun turn hturn => ?_⟩
        by_contra hsome
        exact hmore ⟨turn, hturn, Option.isSome_iff_ne_none.mpr hsome⟩

/-- A pool that cannot go on has done everything. -/
theorem interleaving_of_stuck
    (hthreads : 0 < numThreads) (hlast : destroyedLast calls)
    (hdestroyed : calls.getLast? = some .destroy)
    (hrun : run (createPool numThreads calls) turns = some (events, s))
    (hstuck : ∀ turn : Turn, turn.spurious = false → takeTurn s turn = none) :
    Interleaving (calls.flatMap Call.ownActions :: calls.flatMap Call.tasks) (didOf events) := by
  obtain ⟨queued, hqueued, hsound⟩ := (createPool_sound hthreads hlast).run hrun
  obtain ⟨finished, hhistory⟩ := (createPool_history numThreads calls).run hrun
  obtain ⟨htasks, hown, hending⟩ := run_calls (.inl hdestroyed) hrun
  have hcalls : s.calls = [] := by
    by_contra hcalls
    obtain ⟨turn, hturn, hsome⟩ := hsound.exists_turn hcalls
    rw [hstuck turn hturn] at hsome
    cases hsome
  have hexited : ∀ worker ∈ s.workers, worker = .exited := by
    rcases hending with hmore | ⟨-, hexited⟩
    · rw [hcalls] at hmore
      cases hmore
    · exact hexited
  have hidle : runningTasks s.workers = [] := by
    apply List.filterMap_eq_nil_iff.mpr
    intro worker hworker
    rw [hexited worker hworker]
  obtain ⟨worker, hworker⟩ := List.exists_mem_of_ne_nil _ hsound.nonempty
  have hgone := hsound.workers worker hworker
  rw [hexited worker hworker] at hgone
  rw [hgone.2, List.nil_append, List.append_nil] at hqueued
  rw [hcalls, List.flatMap_nil, List.append_nil] at htasks hown
  rw [← show enqueuedOf events = calls.flatMap Call.tasks from htasks,
    ← show ownOf events = calls.flatMap Call.ownActions from hown]
  exact interleaving_of_idle hqueued hhistory hidle

end Completion

section Collect

/-- The calls of `qio_collect_body` on its pool: the first wave, the pass over the columns
that are read on the main thread, what is left of the jobs, and the end. -/
def collectCalls (native : NativeReader) (tasks : List Task) (mode : Mode)
    (mainActions : List Action) : List (Call Action) :=
  (primedJobs native tasks mode).map .submit ++ .own mainActions ::
    (((poolJobs native tasks mode).drop (primedJobs native tasks mode).length).map .submit ++
      [.wait, .destroy])

theorem primedJobs_append_drop (native : NativeReader) (tasks : List Task) (mode : Mode) :
    primedJobs native tasks mode ++
      (poolJobs native tasks mode).drop (primedJobs native tasks mode).length =
        poolJobs native tasks mode := by
  cases mode with
  | inline => rfl
  | lanes opened =>
      have hall : primedJobs native tasks (.lanes opened) = poolJobs native tasks (.lanes opened) :=
        rfl
      rw [hall, List.drop_length, List.append_nil]
  | pool =>
      rw [primedJobs, List.length_take]
      rcases le_total poolQueueCapacity (poolJobs native tasks .pool).length with hle | hge
      · rw [Nat.min_eq_left hle, List.take_append_drop]
      · rw [Nat.min_eq_right hge, List.take_of_length_le hge, List.drop_length, List.append_nil]

theorem flatMap_tasks_submit (jobs : List (List Action)) :
    (jobs.map Call.submit).flatMap Call.tasks = jobs := by
  induction jobs with
  | nil => rfl
  | cons job jobs ih => rw [List.map_cons, List.flatMap_cons, ih]; rfl

theorem flatMap_ownActions_submit (jobs : List (List Action)) :
    (jobs.map Call.submit).flatMap Call.ownActions = [] := by
  induction jobs with
  | nil => rfl
  | cons job jobs ih => rw [List.map_cons, List.flatMap_cons, ih]; rfl

theorem destroyedLast_submit_append
    (jobs : List (List Action)) {calls : List (Call Action)}
    (h : destroyedLast calls) :
    destroyedLast (jobs.map Call.submit ++ calls) := by
  induction jobs with
  | nil => exact h
  | cons job jobs ih => exact ih

theorem destroyedLast_collectCalls
    (native : NativeReader) (tasks : List Task) (mode : Mode) (mainActions : List Action) :
    destroyedLast (collectCalls native tasks mode mainActions) :=
  destroyedLast_submit_append _ (destroyedLast_submit_append _ rfl)

/-- The actions of a collect on a pool are those the result of a parallel run is made of.
Whoever goes next, once nobody can go on any more the pool has been destroyed and the run is
one of `TaskRun`: an interleaving of the main thread's actions and of all jobs. -/
theorem collect_runs_on_the_pool
    {ctx : CollectContext} {handle : Handle} {targets : List TargetColumn} {main : MainPass}
    {numThreads : Nat} {turns : List Turn} {events : List (Event Action)} {s : State Action}
    (hmode : ctx.mode handle targets ≠ .inline)
    (hmain : ctx.main targets = .ok main)
    (hthreads : 0 < numThreads)
    (hrun : run (createPool numThreads
      (collectCalls ctx.native (ctx.tasks targets) (ctx.mode handle targets) main.actions)) turns =
        some (events, s))
    (hstuck : ∀ turn : Turn, turn.spurious = false → takeTurn s turn = none) :
    TaskRun ctx handle targets (didOf events)
      (collectEnd ctx.native targets (recordedTasks (didOf events) (ctx.tasks targets))
        ctx.selection.totalRows.toNat main
        (runStores Action.store (freshHeap targets) (didOf events))) := by
  refine .parallelDone hmode hmain ?_
  have hlast := destroyedLast_collectCalls ctx.native (ctx.tasks targets)
    (ctx.mode handle targets) main.actions
  have hdestroyed : (collectCalls ctx.native (ctx.tasks targets) (ctx.mode handle targets)
      main.actions).getLast? = some .destroy := by
    rw [collectCalls, ← List.cons_append, ← List.append_assoc, List.getLast?_append]
    rfl
  have hdone := interleaving_of_stuck hthreads hlast hdestroyed hrun hstuck
  have htasks : (collectCalls ctx.native (ctx.tasks targets) (ctx.mode handle targets)
      main.actions).flatMap Call.tasks =
        poolJobs ctx.native (ctx.tasks targets) (ctx.mode handle targets) := by
    rw [collectCalls, List.flatMap_append, List.flatMap_cons, List.flatMap_append,
      flatMap_tasks_submit, flatMap_tasks_submit]
    simpa [Call.tasks] using primedJobs_append_drop ctx.native (ctx.tasks targets) _
  have hown : (collectCalls ctx.native (ctx.tasks targets) (ctx.mode handle targets)
      main.actions).flatMap Call.ownActions = main.actions := by
    rw [collectCalls, List.flatMap_append, List.flatMap_cons, List.flatMap_append,
      flatMap_ownActions_submit, flatMap_ownActions_submit]
    simp [Call.ownActions]
  rwa [htasks, hown] at hdone

/-- Two columns read by two workers. -/
theorem collect_runs_on_the_pool_pair :
    ∃ turns events s main,
      run (createPool 2 (collectCalls (pairContext fun _ => true).native
        ((pairContext fun _ => true).tasks pairTargets)
        ((pairContext fun _ => true).mode mappedHandle pairTargets) main.actions)) turns =
          some (events, s) ∧
      TaskRun (pairContext fun _ => true) mappedHandle pairTargets (didOf events)
        (collectEnd (pairContext fun _ => true).native pairTargets
          (recordedTasks (didOf events) ((pairContext fun _ => true).tasks pairTargets))
          (pairContext fun _ => true).selection.totalRows.toNat main
          (runStores Action.store (freshHeap pairTargets) (didOf events))) := by
  have hlast := destroyedLast_collectCalls (pairContext fun _ => true).native
    ((pairContext fun _ => true).tasks pairTargets)
    ((pairContext fun _ => true).mode mappedHandle pairTargets) []
  obtain ⟨turns, events, s, hrun, hstuck⟩ := (createPool_sound two_pos hlast).exists_stuck_run
    _ List.length_replicate le_rfl
  have hmode : (pairContext fun _ => true).mode mappedHandle pairTargets ≠ .inline := by
    rw [mappedHandle_mode]
    rintro ⟨⟩
  exact ⟨turns, events, s, ⟨[], fun _ => Flags.none⟩, hrun,
    collect_runs_on_the_pool hmode (pairContext_main _) two_pos hrun hstuck⟩

end Collect

end Pool
end QioParquet
