import QioParquet.Lib.RingBuffer
import QioParquet.Read.Collect
import Mathlib.Tactic

/-!
# The worker pool

Model of `worker_pool.c`: workers, a ring of tasks, a mutex and three condition variables,
and the one thread that calls the pool. What a thread does under the mutex is one step, as
no other thread can come between; `pthread_cond_wait` gives the mutex back and sleeps in one
step. A task is the list of its actions, which are done one by one without the mutex.

Who goes next is a choice from outside (`Turn`), and so is which of several sleepers a signal
wakes. Sleepers may also wake up for no reason.
-/

namespace QioParquet
namespace Pool

open Lib Read

variable {α : Type}

section Model

/-- What a worker is about: to look for work under the mutex, asleep on `work_available`, at
an action of its task, or gone. -/
inductive Worker (α : Type) where
  | checking
  | sleeping
  | running (task : List α) (done : Nat)
  | exited
deriving DecidableEq

/-- The calls of the thread that owns the pool, and its own work between them. -/
inductive Call (α : Type) where
  | submit (task : List α)
  | submitBatch (tasks : List (List α))
  | wait
  | destroy
  | own (actions : List α)
deriving DecidableEq

/-- The owner runs, sleeps on `queue_not_full` or on `work_done`, or joins the workers. -/
inductive Owner where
  | awake
  | sleepingNotFull
  | sleepingDone
  | joining
deriving DecidableEq

structure State (α : Type) where
  queue : RingBuffer (List α)
  activeTasks : Nat
  shutdown : Bool
  workers : List (Worker α)
  owner : Owner
  calls : List (Call α)

/-- What can be seen of a step. -/
inductive Event (α : Type) where
  | enqueued (tasks : List (List α))
  | started (task : List α)
  | did (a : α)
  | ownerDid (a : α)
  | finished
  | returned
  | quiet
deriving DecidableEq

/-- The next step: of a worker, of the owner (with the worker its signal wakes), or a
wake-up for no reason. -/
inductive Turn where
  | worker (i : Nat)
  | owner (woken : Nat)
  | wakeWorker (i : Nat)
  | wakeOwner
deriving DecidableEq

def Turn.spurious : Turn → Bool
  | .worker _ => false
  | .owner _ => false
  | .wakeWorker _ => true
  | .wakeOwner => true

/-- `carquet_worker_pool_create`, and what will be asked of the pool. -/
def createPool (numThreads : Nat) (calls : List (Call α)) : State α where
  queue := .empty poolQueueCapacity []
  activeTasks := 0
  shutdown := false
  workers := List.replicate numThreads .checking
  owner := .awake
  calls := calls

def Worker.isSleeping : Worker α → Bool
  | .sleeping => true
  | _ => false

def Worker.isExited : Worker α → Bool
  | .exited => true
  | _ => false

def Worker.isRunning : Worker α → Bool
  | .running _ _ => true
  | _ => false

def Worker.wake : Worker α → Worker α
  | .sleeping => .checking
  | worker => worker

/-- Wakes the owner if it sleeps on a condition. -/
def Owner.wakeFrom (owner condition : Owner) : Owner :=
  if owner = condition then .awake else owner

/-- `POOL_SIGNAL_WORK`: one sleeper wakes, if there is one. -/
def signalWork (woken : Nat) (workers : List (Worker α)) : Option (List (Worker α)) :=
  if workers.any Worker.isSleeping then
    match workers[woken]? with
    | some .sleeping => some (workers.set woken .checking)
    | _ => none
  else
    some workers

/-- `POOL_BROADCAST_WORK`. -/
def broadcastWork (workers : List (Worker α)) : List (Worker α) :=
  workers.map Worker.wake

/-- A step of `worker_thread_func`. -/
def workerTurn (s : State α) (i : Nat) : Option (Event α × State α) :=
  match s.workers[i]? with
  | some .checking =>
      if s.queue.count = 0 ∧ s.shutdown = false then
        some (.quiet, { s with workers := s.workers.set i .sleeping })
      else if s.shutdown = true ∧ s.queue.count = 0 then
        some (.quiet, { s with workers := s.workers.set i .exited })
      else
        s.queue.front.map fun task =>
          (.started task,
            { s with
              queue := s.queue.pop
              activeTasks := s.activeTasks + 1
              workers := s.workers.set i (.running task 0)
              owner := s.owner.wakeFrom .sleepingNotFull })
  | some (.running task done) =>
      match task[done]? with
      | some a =>
          some (.did a, { s with workers := s.workers.set i (.running task (done + 1)) })
      | none =>
          some (.finished,
            { s with
              activeTasks := s.activeTasks - 1
              workers := s.workers.set i .checking
              owner :=
                if s.activeTasks - 1 = 0 ∧ s.queue.count = 0 then
                  s.owner.wakeFrom .sleepingDone
                else
                  s.owner })
  | _ => none

/-- `carquet_worker_pool_submit`. -/
def submitTurn (s : State α) (woken : Nat) (task : List α) (calls : List (Call α)) :
    Option (Event α × State α) :=
  if poolQueueCapacity ≤ s.queue.count then
    some (.quiet, { s with owner := .sleepingNotFull })
  else
    (signalWork woken s.workers).map fun workers =>
      (.enqueued [task],
        { s with queue := s.queue.push task, workers := workers, calls := calls })

/-- `carquet_worker_pool_submit_batch`. The mutex is held until the queue is full. -/
def submitBatchTurn (s : State α) (tasks : List (List α)) (calls : List (Call α)) :
    Event α × State α :=
  let room := poolQueueCapacity - s.queue.count
  let queue := (tasks.take room).foldl RingBuffer.push s.queue
  let workers := broadcastWork s.workers
  if tasks.length ≤ room then
    (.enqueued tasks, { s with queue := queue, workers := workers, calls := calls })
  else
    (.enqueued (tasks.take room),
      { s with
        queue := queue
        workers := workers
        owner := .sleepingNotFull
        calls := .submitBatch (tasks.drop room) :: calls })

/-- `carquet_worker_pool_wait`. -/
def waitTurn (s : State α) (calls : List (Call α)) : Event α × State α :=
  if 0 < s.queue.count ∨ 0 < s.activeTasks then
    (.quiet, { s with owner := .sleepingDone })
  else
    (.returned, { s with calls := calls })

/-- A step of the owner. `carquet_worker_pool_destroy` says that it is over, and then joins
all workers. -/
def ownerTurn (s : State α) (woken : Nat) : Option (Event α × State α) :=
  match s.owner, s.calls with
  | .awake, .submit task :: calls => submitTurn s woken task calls
  | .awake, .submitBatch tasks :: calls => some (submitBatchTurn s tasks calls)
  | .awake, .wait :: calls => some (waitTurn s calls)
  | .awake, .destroy :: _ =>
      some (.quiet,
        { s with shutdown := true, workers := broadcastWork s.workers, owner := .joining })
  | .awake, .own (a :: rest) :: calls =>
      some (.ownerDid a, { s with calls := .own rest :: calls })
  | .awake, .own [] :: calls => some (.quiet, { s with calls := calls })
  | .joining, .destroy :: calls =>
      if s.workers.all Worker.isExited then
        some (.returned, { s with owner := .awake, calls := calls })
      else
        none
  | _, _ => none

def takeTurn (s : State α) : Turn → Option (Event α × State α)
  | .worker i => workerTurn s i
  | .owner woken => ownerTurn s woken
  | .wakeWorker i =>
      match s.workers[i]? with
      | some .sleeping => some (.quiet, { s with workers := s.workers.set i .checking })
      | _ => none
  | .wakeOwner =>
      if s.owner = .sleepingNotFull ∨ s.owner = .sleepingDone then
        some (.quiet, { s with owner := .awake })
      else
        none

/-- A run: what was seen, and the pool after it. -/
def run (s : State α) : List Turn → Option (List (Event α) × State α)
  | [] => some ([], s)
  | turn :: turns =>
      (takeTurn s turn).bind fun (event, s) =>
        (run s turns).map fun (events, s) => (event :: events, s)

end Model

section Steps

/-- One sleeper was woken, or nobody sleeps. -/
inductive Signalled : List (Worker α) → List (Worker α) → Prop where
  | nobody {workers : List (Worker α)}
      (hawake : ∀ worker ∈ workers, worker ≠ .sleeping) :
      Signalled workers workers
  | one (before after : List (Worker α)) :
      Signalled (before ++ .sleeping :: after) (before ++ .checking :: after)

/-- All that a turn can do, and when. -/
inductive Step (s : State α) : Bool → Event α → State α → Prop where
  | sleep {before after : List (Worker α)}
      (hworkers : s.workers = before ++ .checking :: after)
      (hempty : s.queue.count = 0) (hopen : s.shutdown = false) :
      Step s false .quiet { s with workers := before ++ .sleeping :: after }
  | exit {before after : List (Worker α)}
      (hworkers : s.workers = before ++ .checking :: after)
      (hempty : s.queue.count = 0) (hclosed : s.shutdown = true) :
      Step s false .quiet { s with workers := before ++ .exited :: after }
  | start {before after : List (Worker α)} {task : List α}
      (hworkers : s.workers = before ++ .checking :: after)
      (hsome : s.queue.count ≠ 0) (hfront : s.queue.front = some task) :
      Step s false (.started task)
        { s with
          queue := s.queue.pop
          activeTasks := s.activeTasks + 1
          workers := before ++ .running task 0 :: after
          owner := s.owner.wakeFrom .sleepingNotFull }
  | act {before after : List (Worker α)} {task : List α} {done : Nat} {a : α}
      (hworkers : s.workers = before ++ .running task done :: after)
      (ha : task[done]? = some a) :
      Step s false (.did a) { s with workers := before ++ .running task (done + 1) :: after }
  | finish {before after : List (Worker α)} {task : List α} {done : Nat}
      (hworkers : s.workers = before ++ .running task done :: after)
      (hend : task[done]? = none) :
      Step s false .finished
        { s with
          activeTasks := s.activeTasks - 1
          workers := before ++ .checking :: after
          owner :=
            if s.activeTasks - 1 = 0 ∧ s.queue.count = 0 then
              s.owner.wakeFrom .sleepingDone
            else
              s.owner }
  | full {task : List α} {calls : List (Call α)}
      (howner : s.owner = .awake) (hcalls : s.calls = .submit task :: calls)
      (hfull : poolQueueCapacity ≤ s.queue.count) :
      Step s false .quiet { s with owner := .sleepingNotFull }
  | submit {task : List α} {calls : List (Call α)} {workers : List (Worker α)}
      (howner : s.owner = .awake) (hcalls : s.calls = .submit task :: calls)
      (hroom : s.queue.count < poolQueueCapacity) (hsignal : Signalled s.workers workers) :
      Step s false (.enqueued [task])
        { s with queue := s.queue.push task, workers := workers, calls := calls }
  | batch {tasks : List (List α)} {calls : List (Call α)}
      (howner : s.owner = .awake) (hcalls : s.calls = .submitBatch tasks :: calls)
      (hroom : tasks.length ≤ poolQueueCapacity - s.queue.count) :
      Step s false (.enqueued tasks)
        { s with
          queue := tasks.foldl RingBuffer.push s.queue
          workers := broadcastWork s.workers
          calls := calls }
  | batchFull {tasks : List (List α)} {calls : List (Call α)}
      (howner : s.owner = .awake) (hcalls : s.calls = .submitBatch tasks :: calls)
      (hfull : poolQueueCapacity - s.queue.count < tasks.length) :
      Step s false (.enqueued (tasks.take (poolQueueCapacity - s.queue.count)))
        { s with
          queue := (tasks.take (poolQueueCapacity - s.queue.count)).foldl RingBuffer.push s.queue
          workers := broadcastWork s.workers
          owner := .sleepingNotFull
          calls := .submitBatch (tasks.drop (poolQueueCapacity - s.queue.count)) :: calls }
  | waitMore {calls : List (Call α)}
      (howner : s.owner = .awake) (hcalls : s.calls = .wait :: calls)
      (hmore : 0 < s.queue.count ∨ 0 < s.activeTasks) :
      Step s false .quiet { s with owner := .sleepingDone }
  | waited {calls : List (Call α)}
      (howner : s.owner = .awake) (hcalls : s.calls = .wait :: calls)
      (hempty : s.queue.count = 0) (hidle : s.activeTasks = 0) :
      Step s false .returned { s with calls := calls }
  | destroy {calls : List (Call α)}
      (howner : s.owner = .awake) (hcalls : s.calls = .destroy :: calls) :
      Step s false .quiet
        { s with shutdown := true, workers := broadcastWork s.workers, owner := .joining }
  | joined {calls : List (Call α)}
      (howner : s.owner = .joining) (hcalls : s.calls = .destroy :: calls)
      (hexited : ∀ worker ∈ s.workers, worker = .exited) :
      Step s false .returned { s with owner := .awake, calls := calls }
  | ownAct {a : α} {rest : List α} {calls : List (Call α)}
      (howner : s.owner = .awake) (hcalls : s.calls = .own (a :: rest) :: calls) :
      Step s false (.ownerDid a) { s with calls := .own rest :: calls }
  | ownEnd {calls : List (Call α)}
      (howner : s.owner = .awake) (hcalls : s.calls = .own [] :: calls) :
      Step s false .quiet { s with calls := calls }
  | workerWakes {before after : List (Worker α)}
      (hworkers : s.workers = before ++ .sleeping :: after) :
      Step s true .quiet { s with workers := before ++ .checking :: after }
  | ownerWakes
      (howner : s.owner = .sleepingNotFull ∨ s.owner = .sleepingDone) :
      Step s true .quiet { s with owner := .awake }

/-- A worker among the others, and the list with something else in its place. -/
theorem workers_split
    {workers : List (Worker α)} {i : Nat} {worker : Worker α}
    (h : workers[i]? = some worker) :
    ∃ before after, workers = before ++ worker :: after ∧
      ∀ worker', workers.set i worker' = before ++ worker' :: after := by
  obtain ⟨hlt, rfl⟩ := List.getElem?_eq_some_iff.mp h
  refine ⟨workers.take i, workers.drop (i + 1), ?_, fun worker' => ?_⟩
  · rw [← List.drop_eq_getElem_cons hlt, List.take_append_drop]
  · rw [List.set_eq_take_append_cons_drop, if_pos hlt]

theorem Signalled.of_signalWork
    {woken : Nat} {workers workers' : List (Worker α)}
    (h : signalWork woken workers = some workers') :
    Signalled workers workers' := by
  rw [signalWork] at h
  split_ifs at h with hsleeping
  · split at h
    · rename_i hworker
      obtain ⟨before, after, hsplit, hset⟩ := workers_split hworker
      rw [hset] at h
      cases h
      rw [hsplit]
      exact .one before after
    · cases h
  · cases h
    refine .nobody fun worker hworker hasleep => hsleeping ?_
    exact List.any_eq_true.mpr ⟨worker, hworker, by rw [hasleep]; rfl⟩

theorem Step.of_workerTurn
    {s s' : State α} {i : Nat} {event : Event α}
    (h : workerTurn s i = some (event, s')) :
    Step s false event s' := by
  rw [workerTurn] at h
  split at h
  · rename_i hworker
    obtain ⟨before, after, hsplit, hset⟩ := workers_split hworker
    simp only [hset] at h
    split_ifs at h with hsleep hexit
    · cases h
      exact .sleep hsplit hsleep.1 hsleep.2
    · cases h
      exact .exit hsplit hexit.2 hexit.1
    · obtain ⟨task, hfront, heq⟩ := Option.map_eq_some_iff.mp h
      cases heq
      have hsome : s.queue.count ≠ 0 := by
        intro hempty
        cases hshutdown : s.shutdown with
        | false => exact hsleep ⟨hempty, hshutdown⟩
        | true => exact hexit ⟨hshutdown, hempty⟩
      exact .start hsplit hsome hfront
  · rename_i task done hworker
    obtain ⟨before, after, hsplit, hset⟩ := workers_split hworker
    simp only [hset] at h
    split at h
    · rename_i ha
      cases h
      exact .act hsplit ha
    · rename_i hend
      cases h
      exact .finish hsplit hend
  · cases h

theorem Step.of_ownerTurn
    {s s' : State α} {woken : Nat} {event : Event α}
    (h : ownerTurn s woken = some (event, s')) :
    Step s false event s' := by
  rw [ownerTurn] at h
  split at h
  · rename_i howner hcalls
    rw [submitTurn] at h
    split_ifs at h with hfull
    · cases h
      exact .full howner hcalls hfull
    · obtain ⟨workers, hsignal, heq⟩ := Option.map_eq_some_iff.mp h
      cases heq
      exact .submit howner hcalls (by omega) (.of_signalWork hsignal)
  · rename_i tasks _ howner hcalls
    rw [submitBatchTurn, Option.some.injEq] at h
    split_ifs at h with hroom
    · cases h
      rw [List.take_of_length_le hroom]
      exact .batch howner hcalls hroom
    · cases h
      exact .batchFull howner hcalls (by omega)
  · rename_i howner hcalls
    rw [waitTurn, Option.some.injEq] at h
    split_ifs at h with hmore
    · cases h
      exact .waitMore howner hcalls hmore
    · cases h
      exact .waited howner hcalls (by omega) (by omega)
  · rename_i howner hcalls
    cases h
    exact .destroy howner hcalls
  · rename_i howner hcalls
    cases h
    exact .ownAct howner hcalls
  · rename_i howner hcalls
    cases h
    exact .ownEnd howner hcalls
  · rename_i howner hcalls
    split_ifs at h with hexited
    cases h
    refine .joined howner hcalls fun worker hworker => ?_
    have hone := List.all_eq_true.mp hexited worker hworker
    cases worker with
    | exited => rfl
    | checking => cases hone
    | sleeping => cases hone
    | running task done => cases hone
  · cases h

/-- A turn is a step. -/
theorem Step.of_takeTurn
    {s s' : State α} {turn : Turn} {event : Event α}
    (h : takeTurn s turn = some (event, s')) :
    Step s turn.spurious event s' := by
  cases turn with
  | worker i =>
      exact .of_workerTurn h
  | owner woken =>
      exact .of_ownerTurn h
  | wakeWorker i =>
      rw [takeTurn] at h
      split at h
      · rename_i hworker
        obtain ⟨before, after, hsplit, hset⟩ := workers_split hworker
        rw [hset] at h
        cases h
        exact .workerWakes hsplit
      · cases h
  | wakeOwner =>
      rw [takeTurn] at h
      split_ifs at h with howner
      cases h
      exact .ownerWakes howner

end Steps

end Pool
end QioParquet
