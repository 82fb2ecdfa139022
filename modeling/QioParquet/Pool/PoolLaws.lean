import QioParquet.Pool.WorkerPool
import Mathlib.Tactic

/-!
# What the worker pool keeps

An invariant of all states that can be reached, whoever goes next and whoever wakes up, and
a history of what was done. The invariant has the queue as a list, the count of the tasks
under way, and who may sleep when. From both: tasks are taken in the order in which they
came, and when a wait or the destruction of the pool returns, all tasks have been done.
-/

namespace QioParquet
namespace Pool

open Lib Read

variable {α : Type}

section Invariant

/-- The pool is destroyed by the last call. -/
def destroyedLast : List (Call α) → Prop
  | [] => True
  | .destroy :: calls => calls = []
  | _ :: calls => destroyedLast calls

/-- A worker goes only when the pool is shut down and its queue is empty, and none sleeps
through a shutdown. -/
def workerSound (shutdown : Bool) (queued : List (List α)) : Worker α → Prop
  | .sleeping => shutdown = false
  | .exited => shutdown = true ∧ queued = []
  | _ => True

/-- The owner does not sleep when what it waits for is there, so that a wake-up cannot have
been missed. -/
def ownerSound (s : State α) (queued : List (List α)) : Prop :=
  match s.owner with
  | .awake => s.shutdown = true → s.calls = []
  | .sleepingNotFull => poolQueueCapacity ≤ queued.length ∧ s.shutdown = false ∧ s.calls ≠ []
  | .sleepingDone => (queued ≠ [] ∨ 0 < s.activeTasks) ∧ s.shutdown = false ∧ s.calls ≠ []
  | .joining => s.shutdown = true ∧ s.calls = [.destroy]

/-- What holds in every state that can be reached. -/
structure Sound (s : State α) (queued : List (List α)) : Prop where
  queue : s.queue.Holds queued
  capacity : s.queue.slots.length = poolQueueCapacity
  nonempty : s.workers ≠ []
  active : s.activeTasks = s.workers.countP Worker.isRunning
  last : destroyedLast s.calls
  workers : ∀ worker ∈ s.workers, workerSound s.shutdown queued worker
  awake : queued ≠ [] → ∃ worker ∈ s.workers, worker ≠ .sleeping
  owner : ownerSound s queued

variable {s s' : State α} {queued : List (List α)}

theorem createPool_sound
    {numThreads : Nat} {calls : List (Call α)}
    (hthreads : 0 < numThreads) (hlast : destroyedLast calls) :
    Sound (createPool numThreads calls) [] where
  queue := RingBuffer.empty_holds (by decide) []
  capacity := List.length_replicate
  nonempty := by
    apply List.ne_nil_of_length_pos
    rw [createPool, List.length_replicate]
    exact hthreads
  active := by
    refine (List.countP_eq_zero.mpr fun worker hworker => ?_).symm
    rw [List.eq_of_mem_replicate hworker]
    exact Bool.false_ne_true
  last := hlast
  workers worker hworker := by
    rw [List.eq_of_mem_replicate hworker]
    trivial
  awake hqueued := absurd rfl hqueued
  owner := by
    intro hshutdown
    cases hshutdown

theorem Sound.count (h : Sound s queued) : s.queue.count = queued.length :=
  h.queue.count

theorem Sound.queued_eq_nil (h : Sound s queued) (hempty : s.queue.count = 0) : queued = [] :=
  List.length_eq_zero_iff.mp (h.count ▸ hempty)

/-- While the owner can still submit, the pool is not shut down. -/
theorem Sound.open_of_calls
    (h : Sound s queued)
    (howner : s.owner = .awake) {call : Call α} {calls : List (Call α)}
    (hcalls : s.calls = call :: calls) :
    s.shutdown = false := by
  have howner' := h.owner
  rw [ownerSound, howner] at howner'
  cases hshutdown : s.shutdown with
  | false =>
      rfl
  | true =>
      rw [howner' hshutdown] at hcalls
      cases hcalls

theorem forall_mem_replace
    {P : Worker α → Prop} {before after : List (Worker α)} {worker worker' : Worker α}
    (h : ∀ other ∈ before ++ worker :: after, P other)
    (hworker' : P worker') :
    ∀ other ∈ before ++ worker' :: after, P other := by
  intro other hother
  rcases List.mem_append.mp hother with hbefore | hafter
  · exact h other (List.mem_append_left _ hbefore)
  · rcases List.mem_cons.mp hafter with rfl | hafter
    · exact hworker'
    · exact h other (List.mem_append_right _ (List.mem_cons_of_mem _ hafter))

theorem countP_replace
    {before after : List (Worker α)} {worker worker' : Worker α}
    (h : worker'.isRunning = worker.isRunning) :
    (before ++ worker' :: after).countP Worker.isRunning =
      (before ++ worker :: after).countP Worker.isRunning := by
  simp only [List.countP_append, List.countP_cons, h]

/-- A worker has changed, in a way that has no part in the queue. -/
theorem Sound.replace
    {before after : List (Worker α)} {worker worker' : Worker α}
    (h : Sound s queued)
    (hworkers : s.workers = before ++ worker :: after)
    (hrunning : worker'.isRunning = worker.isRunning)
    (hsound : workerSound s.shutdown queued worker')
    (hawake : worker' ≠ .sleeping ∨ queued = []) :
    Sound { s with workers := before ++ worker' :: after } queued where
  queue := h.queue
  capacity := h.capacity
  nonempty := List.append_ne_nil_of_right_ne_nil _ (List.cons_ne_nil _ _)
  active := by
    rw [countP_replace hrunning, ← hworkers]
    exact h.active
  last := h.last
  workers := forall_mem_replace (hworkers ▸ h.workers) hsound
  awake hqueued := ⟨worker', by simp, hawake.resolve_right hqueued⟩
  owner := h.owner

/-- The owner has gone on, or to sleep. -/
theorem Sound.of_owner
    {owner : Owner} {calls : List (Call α)}
    (h : Sound s queued)
    (hlast : destroyedLast calls)
    (howner : ownerSound { s with owner := owner, calls := calls } queued) :
    Sound { s with owner := owner, calls := calls } queued :=
  ⟨h.queue, h.capacity, h.nonempty, h.active, hlast, h.workers, h.awake, howner⟩

/-- The owner has woken workers, and perhaps put tasks into the queue. -/
theorem Sound.of_woken
    {queue : RingBuffer (List α)} {workers : List (Worker α)} {owner : Owner}
    {calls : List (Call α)} {queued' : List (List α)}
    (h : Sound s queued)
    (hopen : s.shutdown = false)
    (hqueue : queue.Holds queued') (hcapacity : queue.slots.length = poolQueueCapacity)
    (hwoken : ∃ worker ∈ workers, worker ≠ .sleeping)
    (hrunning : workers.countP Worker.isRunning = s.workers.countP Worker.isRunning)
    (hexited : ∀ worker ∈ workers, worker ≠ .exited)
    (hlast : destroyedLast calls)
    (howner : ownerSound
      { s with
        queue := queue
        workers := workers
        owner := owner
        calls := calls } queued') :
    Sound
      { s with
        queue := queue
        workers := workers
        owner := owner
        calls := calls } queued' where
  queue := hqueue
  capacity := hcapacity
  nonempty := List.ne_nil_of_mem hwoken.choose_spec.1
  active := by
    rw [hrunning]
    exact h.active
  last := hlast
  workers worker hworker := by
    cases worker with
    | sleeping => exact hopen
    | exited => exact absurd rfl (hexited _ hworker)
    | checking => trivial
    | running task done => trivial
  awake _ := hwoken
  owner := howner

theorem Worker.isRunning_wake (worker : Worker α) : worker.wake.isRunning = worker.isRunning := by
  cases worker <;> rfl

theorem Worker.wake_ne_sleeping (worker : Worker α) : worker.wake ≠ .sleeping := by
  cases worker <;> simp [Worker.wake]

theorem Worker.wake_eq_exited {worker : Worker α} (h : worker.wake = .exited) :
    worker = .exited := by
  cases worker <;> simp_all [Worker.wake]

theorem countP_broadcastWork (workers : List (Worker α)) :
    (broadcastWork workers).countP Worker.isRunning = workers.countP Worker.isRunning := by
  rw [broadcastWork, List.countP_map]
  congr 1
  funext worker
  exact worker.isRunning_wake

theorem Signalled.countP
    {workers workers' : List (Worker α)}
    (h : Signalled workers workers') :
    workers'.countP Worker.isRunning = workers.countP Worker.isRunning := by
  cases h with
  | nobody _ => rfl
  | one before after => exact countP_replace rfl

theorem Signalled.exists_awake
    {workers workers' : List (Worker α)}
    (h : Signalled workers workers')
    (hnonempty : workers ≠ []) :
    ∃ worker ∈ workers', worker ≠ .sleeping := by
  cases h with
  | nobody hawake =>
      obtain ⟨worker, hworker⟩ := List.exists_mem_of_ne_nil _ hnonempty
      exact ⟨worker, hworker, hawake worker hworker⟩
  | one before after =>
      exact ⟨.checking, by simp, by rintro ⟨⟩⟩

theorem Signalled.not_exited
    {workers workers' : List (Worker α)}
    (h : Signalled workers workers')
    (hworkers : ∀ worker ∈ workers, worker ≠ .exited) :
    ∀ worker ∈ workers', worker ≠ .exited := by
  cases h with
  | nobody hawake => exact hworkers
  | one before after => exact forall_mem_replace hworkers (by rintro ⟨⟩)

/-- Before the shutdown nobody is gone. -/
theorem Sound.not_exited
    (h : Sound s queued)
    (hopen : s.shutdown = false) :
    ∀ worker ∈ s.workers, worker ≠ .exited := by
  rintro worker hworker rfl
  have hsound := h.workers _ hworker
  rw [workerSound, hopen] at hsound
  cases hsound.1

theorem exists_woken
    {workers : List (Worker α)}
    (h : workers ≠ []) :
    ∃ worker ∈ broadcastWork workers, worker ≠ .sleeping := by
  obtain ⟨worker, hworker⟩ := List.exists_mem_of_ne_nil _ h
  exact ⟨worker.wake, List.mem_map_of_mem hworker, worker.wake_ne_sleeping⟩

theorem broadcastWork_not_exited
    {workers : List (Worker α)}
    (h : ∀ worker ∈ workers, worker ≠ .exited) :
    ∀ worker ∈ broadcastWork workers, worker ≠ .exited := by
  intro worker hworker hexited
  obtain ⟨before, hbefore, rfl⟩ := List.mem_map.mp hworker
  exact h before hbefore (Worker.wake_eq_exited hexited)

/-- The tasks that a step puts into the queue. -/
def Event.enqueues : Event α → List (List α)
  | .enqueued tasks => tasks
  | _ => []

/-- The task that a step takes from it. -/
def Event.starts : Event α → List (List α)
  | .started task => [task]
  | _ => []

/-- A worker takes the first task of the queue. -/
theorem Sound.start
    {before after : List (Worker α)} {task : List α}
    (h : Sound s queued)
    (hworkers : s.workers = before ++ .checking :: after)
    (hsome : s.queue.count ≠ 0) (hfront : s.queue.front = some task) :
    ∃ queued', queued = task :: queued' ∧
      Sound
        { s with
          queue := s.queue.pop
          activeTasks := s.activeTasks + 1
          workers := before ++ .running task 0 :: after
          owner := s.owner.wakeFrom .sleepingNotFull } queued' := by
  cases queued with
  | nil =>
      exact absurd h.count hsome
  | cons first queued' =>
      have hfirst := h.queue.front
      rw [hfront] at hfirst
      cases hfirst
      refine ⟨queued', rfl, h.queue.pop, h.capacity,
        List.append_ne_nil_of_right_ne_nil _ (List.cons_ne_nil _ _), ?_, h.last, ?_, ?_, ?_⟩
      · have hactive := h.active
        rw [hworkers] at hactive
        simp only [List.countP_append, List.countP_cons, Worker.isRunning, if_true,
          Bool.false_eq_true, if_false] at hactive ⊢
        omega
      · have hothers : ∀ other ∈ before ++ .checking :: after,
            workerSound s.shutdown queued' other := by
          intro other hother
          have hsound := h.workers other (hworkers ▸ hother)
          cases other with
          | sleeping => exact hsound
          | exited => cases hsound.2
          | checking => trivial
          | running task done => trivial
        exact forall_mem_replace hothers trivial
      · intro _
        exact ⟨.running task 0, by simp, by rintro ⟨⟩⟩
      · have howner := h.owner
        rw [ownerSound] at howner ⊢
        cases hcase : s.owner with
        | awake =>
            rw [hcase] at howner
            exact howner
        | sleepingNotFull =>
            rw [hcase] at howner
            intro hshutdown
            rw [howner.2.1] at hshutdown
            cases hshutdown
        | sleepingDone =>
            rw [hcase] at howner
            exact ⟨.inr (Nat.succ_pos _), howner.2⟩
        | joining =>
            rw [hcase] at howner
            exact howner

/-- A task is done. -/
theorem Sound.finish
    {before after : List (Worker α)} {task : List α} {done : Nat}
    (h : Sound s queued)
    (hworkers : s.workers = before ++ .running task done :: after) :
    Sound
      { s with
        activeTasks := s.activeTasks - 1
        workers := before ++ .checking :: after
        owner :=
          if s.activeTasks - 1 = 0 ∧ s.queue.count = 0 then
            s.owner.wakeFrom .sleepingDone
          else
            s.owner } queued where
  queue := h.queue
  capacity := h.capacity
  nonempty := List.append_ne_nil_of_right_ne_nil _ (List.cons_ne_nil _ _)
  active := by
    have hactive := h.active
    rw [hworkers] at hactive
    simp only [List.countP_append, List.countP_cons, Worker.isRunning, if_true,
      Bool.false_eq_true, if_false] at hactive ⊢
    omega
  last := h.last
  workers := forall_mem_replace (hworkers ▸ h.workers) trivial
  awake _ := ⟨.checking, by simp, by rintro ⟨⟩⟩
  owner := by
    have howner := h.owner
    rw [ownerSound] at howner ⊢
    cases hcase : s.owner with
    | awake =>
        rw [hcase] at howner
        dsimp only
        split_ifs <;> exact howner
    | sleepingNotFull =>
        rw [hcase] at howner
        dsimp only
        split_ifs <;> exact howner
    | sleepingDone =>
        rw [hcase] at howner
        dsimp only
        split_ifs with hdone
        · intro hshutdown
          rw [howner.2.1] at hshutdown
          cases hshutdown
        · refine ⟨?_, howner.2⟩
          by_contra hnothing
          simp only [not_or, not_not, not_lt, Nat.le_zero] at hnothing
          exact hdone ⟨hnothing.2, by rw [h.count, hnothing.1]; rfl⟩
    | joining =>
        rw [hcase] at howner
        dsimp only
        split_ifs <;> exact howner

/-- Every step keeps the invariant, and the queue is first in, first out. -/
theorem Sound.step
    {spurious : Bool} {event : Event α}
    (h : Sound s queued)
    (hstep : Step s spurious event s') :
    ∃ queued', queued ++ event.enqueues = event.starts ++ queued' ∧ Sound s' queued' := by
  cases hstep with
  | sleep hworkers hempty hopen =>
      exact ⟨queued, List.append_nil _, h.replace hworkers rfl hopen (.inr (h.queued_eq_nil hempty))⟩
  | exit hworkers hempty hclosed =>
      exact ⟨queued, List.append_nil _, h.replace hworkers rfl ⟨hclosed, h.queued_eq_nil hempty⟩
        (.inr (h.queued_eq_nil hempty))⟩
  | start hworkers hsome hfront =>
      obtain ⟨queued', hqueued, hsound⟩ := h.start hworkers hsome hfront
      exact ⟨queued', by rw [hqueued]; exact List.append_nil _, hsound⟩
  | act hworkers ha =>
      exact ⟨queued, List.append_nil _, h.replace hworkers rfl trivial (.inl (by rintro ⟨⟩))⟩
  | finish hworkers hend =>
      exact ⟨queued, List.append_nil _, h.finish hworkers⟩
  | full howner hcalls hfull =>
      refine ⟨queued, List.append_nil _, h.of_owner h.last ?_⟩
      exact ⟨h.count ▸ hfull, h.open_of_calls howner hcalls, by simp [hcalls]⟩
  | @submit task calls workers howner hcalls hroom hsignal =>
      have hopen := h.open_of_calls howner hcalls
      have hlast : destroyedLast calls := by
        have hlast := h.last
        rw [hcalls] at hlast
        exact hlast
      refine ⟨queued ++ [task], rfl, h.of_woken hopen (h.queue.push ?_ task) ?_
        (hsignal.exists_awake h.nonempty) hsignal.countP (hsignal.not_exited (h.not_exited hopen))
        hlast ?_⟩
      · rw [h.capacity, ← h.count]
        exact hroom
      · rw [RingBuffer.length_slots_push, h.capacity]
      · rw [ownerSound, howner]
        intro hshutdown
        rw [hopen] at hshutdown
        cases hshutdown
  | @batch tasks calls howner hcalls hroom =>
      have hopen := h.open_of_calls howner hcalls
      have hfits := h.queue.fits
      rw [h.capacity] at hfits
      rw [h.count] at hroom
      obtain ⟨hqueue, hslots⟩ := h.queue.pushAll tasks (by rw [h.capacity]; omega)
      have hlast : destroyedLast calls := by
        have hlast := h.last
        rw [hcalls] at hlast
        exact hlast
      refine ⟨queued ++ tasks, rfl, h.of_woken hopen hqueue
        (hslots.trans h.capacity) (exists_woken h.nonempty) (countP_broadcastWork _)
        (broadcastWork_not_exited (h.not_exited hopen)) hlast ?_⟩
      rw [ownerSound, howner]
      intro hshutdown
      rw [hopen] at hshutdown
      cases hshutdown
  | @batchFull tasks calls howner hcalls hfull =>
      have hopen := h.open_of_calls howner hcalls
      have hfits := h.queue.fits
      rw [h.capacity] at hfits
      have hlength : (tasks.take (poolQueueCapacity - s.queue.count)).length =
          poolQueueCapacity - s.queue.count := List.length_take_of_le hfull.le
      have hcount := h.count
      obtain ⟨hqueue, hslots⟩ :=
        h.queue.pushAll (tasks.take (poolQueueCapacity - s.queue.count))
          (by rw [h.capacity]; omega)
      have hlast : destroyedLast
          (.submitBatch (tasks.drop (poolQueueCapacity - s.queue.count)) :: calls) := by
        have hlast := h.last
        rw [hcalls] at hlast
        exact hlast
      refine ⟨queued ++ tasks.take (poolQueueCapacity - s.queue.count), rfl,
        h.of_woken hopen hqueue (hslots.trans h.capacity) (exists_woken h.nonempty)
        (countP_broadcastWork _) (broadcastWork_not_exited (h.not_exited hopen)) hlast ?_⟩
      refine ⟨?_, hopen, List.cons_ne_nil _ _⟩
      rw [List.length_append, hlength]
      omega
  | waitMore howner hcalls hmore =>
      refine ⟨queued, List.append_nil _, h.of_owner h.last ?_⟩
      refine ⟨?_, h.open_of_calls howner hcalls, by simp [hcalls]⟩
      rw [h.count] at hmore
      exact hmore.imp_left List.ne_nil_of_length_pos
  | @waited calls howner hcalls hempty hidle =>
      have hlast := h.last
      rw [hcalls] at hlast
      refine ⟨queued, List.append_nil _, h.of_owner hlast ?_⟩
      rw [ownerSound, howner]
      intro hshutdown
      rw [h.open_of_calls howner hcalls] at hshutdown
      cases hshutdown
  | @destroy calls howner hcalls =>
      have hopen := h.open_of_calls howner hcalls
      have hlast := h.last
      rw [hcalls] at hlast
      cases hlast
      refine ⟨queued, List.append_nil _, h.queue, h.capacity, ?_, ?_, h.last, ?_, ?_, rfl, hcalls⟩
      · simpa [broadcastWork] using h.nonempty
      · rw [countP_broadcastWork]
        exact h.active
      · intro worker hworker
        have hexited := broadcastWork_not_exited (h.not_exited hopen) worker hworker
        obtain ⟨before, -, rfl⟩ := List.mem_map.mp hworker
        have hawake := before.wake_ne_sleeping
        cases hcase : before.wake with
        | sleeping => exact absurd hcase hawake
        | exited => exact absurd hcase hexited
        | checking => trivial
        | running task done => trivial
      · exact fun _ => exists_woken h.nonempty
  | @joined calls howner hcalls hexited =>
      have hlast := h.last
      rw [hcalls] at hlast
      cases hlast
      exact ⟨queued, List.append_nil _, h.of_owner trivial fun _ => rfl⟩
  | @ownAct a rest calls howner hcalls =>
      have hlast := h.last
      rw [hcalls] at hlast
      refine ⟨queued, List.append_nil _, h.of_owner hlast ?_⟩
      rw [ownerSound, howner]
      intro hshutdown
      rw [h.open_of_calls howner hcalls] at hshutdown
      cases hshutdown
  | @ownEnd calls howner hcalls =>
      have hlast := h.last
      rw [hcalls] at hlast
      refine ⟨queued, List.append_nil _, h.of_owner hlast ?_⟩
      rw [ownerSound, howner]
      intro hshutdown
      rw [h.open_of_calls howner hcalls] at hshutdown
      cases hshutdown
  | workerWakes hworkers =>
      exact ⟨queued, List.append_nil _, h.replace hworkers rfl trivial (.inl (by rintro ⟨⟩))⟩
  | ownerWakes howner =>
      refine ⟨queued, List.append_nil _, h.of_owner h.last ?_⟩
      have hsound := h.owner
      rw [ownerSound] at hsound
      intro hshutdown
      rcases howner with hcase | hcase
      · rw [hcase] at hsound
        rw [hsound.2.1] at hshutdown
        cases hshutdown
      · rw [hcase] at hsound
        rw [hsound.2.1] at hshutdown
        cases hshutdown

end Invariant

section Histories

/-- The tasks that were put into the queue, in order. -/
def enqueuedOf (events : List (Event α)) : List (List α) :=
  events.flatMap Event.enqueues

/-- The tasks that workers took, in order. -/
def startedOf (events : List (Event α)) : List (List α) :=
  events.flatMap Event.starts

def Event.ownActs : Event α → List α
  | .ownerDid a => [a]
  | _ => []

def Event.acts : Event α → List α
  | .did a => [a]
  | .ownerDid a => [a]
  | _ => []

/-- What the owner did itself. -/
def ownOf (events : List (Event α)) : List α :=
  events.flatMap Event.ownActs

/-- What was done, by whomever. -/
def didOf (events : List (Event α)) : List α :=
  events.flatMap Event.acts

/-- The tasks that are under way, and how far they are. -/
def runningTasks (workers : List (Worker α)) : List (List α × Nat) :=
  workers.filterMap fun
    | .running task done => some (task, done)
    | _ => none

variable {s s' : State α} {queued : List (List α)}

theorem run_concat
    {turns : List Turn} {turn : Turn} {events : List (Event α)}
    (h : run s (turns ++ [turn]) = some (events, s')) :
    ∃ events₀ s₁ event, run s turns = some (events₀, s₁) ∧
      takeTurn s₁ turn = some (event, s') ∧ events = events₀ ++ [event] := by
  induction turns generalizing s events with
  | nil =>
      rw [List.nil_append, run] at h
      obtain ⟨⟨event, s₁⟩, hturn, hrest⟩ := Option.bind_eq_some_iff.mp h
      cases hrest
      exact ⟨[], s, event, rfl, hturn, rfl⟩
  | cons first turns ih =>
      rw [List.cons_append, run] at h
      obtain ⟨⟨event, s₁⟩, hturn, hrest⟩ := Option.bind_eq_some_iff.mp h
      obtain ⟨⟨events₁, s₂⟩, hrun, heq⟩ := Option.map_eq_some_iff.mp hrest
      cases heq
      obtain ⟨events₀, s₃, last, hrun₀, hlast, rfl⟩ := ih hrun
      refine ⟨event :: events₀, s₃, last, ?_, hlast, rfl⟩
      rw [run, hturn, Option.bind_some]
      dsimp only
      rw [hrun₀, Option.map_some]

/-- In every run the queue is first in, first out, and the invariant holds. -/
theorem Sound.run
    {turns : List Turn} {events : List (Event α)}
    (h : Sound s queued)
    (hrun : Pool.run s turns = some (events, s')) :
    ∃ queued', queued ++ enqueuedOf events = startedOf events ++ queued' ∧ Sound s' queued' := by
  induction turns generalizing s queued events with
  | nil =>
      cases hrun
      exact ⟨queued, List.append_nil _, h⟩
  | cons turn turns ih =>
      rw [Pool.run] at hrun
      obtain ⟨⟨event, s₁⟩, hturn, hrest⟩ := Option.bind_eq_some_iff.mp hrun
      obtain ⟨⟨events₁, s₂⟩, hrun₁, heq⟩ := Option.map_eq_some_iff.mp hrest
      cases heq
      obtain ⟨queued₁, hfirst, hsound₁⟩ := h.step (.of_takeTurn hturn)
      obtain ⟨queued₂, hsecond, hsound₂⟩ := ih hsound₁ hrun₁
      refine ⟨queued₂, ?_, hsound₂⟩
      rw [enqueuedOf, startedOf, List.flatMap_cons, List.flatMap_cons, ← List.append_assoc, hfirst,
        List.append_assoc, ← enqueuedOf, hsecond, List.append_assoc, ← startedOf]

/-- The tasks that were started are under way or finished, and what was done is an
interleaving of the owner's work and of the tasks, as far as they are. -/
structure History (started : List (List α)) (own did : List α) (workers : List (Worker α))
    (finished : List (List α)) : Prop where
  tasks : started.Perm ((runningTasks workers).map Prod.fst ++ finished)
  acts : Interleaving
    (own :: ((runningTasks workers).map (fun entry => entry.1.take entry.2) ++ finished)) did

theorem runningTasks_append_cons
    (before after : List (Worker α)) (worker : Worker α) :
    runningTasks (before ++ worker :: after) =
      runningTasks before ++ (runningTasks [worker] ++ runningTasks after) := by
  rw [runningTasks, List.filterMap_append, ← List.singleton_append, List.filterMap_append]
  rfl

theorem runningTasks_broadcastWork (workers : List (Worker α)) :
    runningTasks (broadcastWork workers) = runningTasks workers := by
  rw [runningTasks, broadcastWork, List.filterMap_map, runningTasks]
  congr 1
  funext worker
  cases worker <;> rfl

theorem Signalled.runningTasks
    {workers workers' : List (Worker α)}
    (h : Signalled workers workers') :
    runningTasks workers' = runningTasks workers := by
  cases h with
  | nobody _ => rfl
  | one before after => rw [runningTasks_append_cons, runningTasks_append_cons]; rfl

variable {started : List (List α)} {own did : List α} {finished : List (List α)}

/-- A worker that is at no task takes one. -/
theorem History.start
    {before after : List (Worker α)}
    (h : History started own did (before ++ .checking :: after) finished) (task : List α) :
    History (started ++ [task]) own did (before ++ .running task 0 :: after) finished := by
  obtain ⟨htasks, hacts⟩ := h
  rw [runningTasks_append_cons] at htasks hacts
  have hidle : runningTasks [(Worker.checking : Worker α)] = [] := rfl
  have hbusy : runningTasks [Worker.running task 0] = [(task, 0)] := rfl
  rw [hidle, List.nil_append] at htasks hacts
  refine ⟨?_, ?_⟩
  · rw [runningTasks_append_cons, hbusy]
    simp only [List.map_append, List.map_cons, List.append_assoc,
      List.cons_append, List.nil_append] at htasks ⊢
    exact ((htasks.append_right [task]).trans (List.perm_append_singleton _ _)).trans
      List.perm_middle.symm
  · rw [runningTasks_append_cons, hbusy]
    simp only [List.map_append, List.map_cons, List.append_assoc, List.take_zero,
      List.cons_append, List.nil_append] at hacts ⊢
    refine hacts.cons_nil.of_perm ?_
    rw [← List.cons_append, ← List.cons_append]
    exact List.perm_middle.symm

/-- A task goes on by an action. -/
theorem History.act
    {before after : List (Worker α)} {task : List α} {done : Nat} {a : α}
    (h : History started own did (before ++ .running task done :: after) finished)
    (ha : task[done]? = some a) :
    History started own (did ++ [a]) (before ++ .running task (done + 1) :: after) finished := by
  obtain ⟨htasks, hacts⟩ := h
  have htake : task.take (done + 1) = task.take done ++ [a] := by
    rw [List.take_add_one, ha]
    rfl
  have hbusy : ∀ n, runningTasks [Worker.running task n] = [(task, n)] := fun _ => rfl
  rw [runningTasks_append_cons, hbusy] at htasks hacts
  refine ⟨?_, ?_⟩
  · rw [runningTasks_append_cons, hbusy]
    simpa using htasks
  · rw [runningTasks_append_cons, hbusy]
    simp only [List.map_append, List.map_cons, List.append_assoc, List.cons_append,
      List.nil_append] at hacts ⊢
    rw [htake]
    rw [← List.cons_append] at hacts ⊢
    exact hacts.snoc a

/-- A task that has no action left is finished. -/
theorem History.finish
    {before after : List (Worker α)} {task : List α} {done : Nat}
    (h : History started own did (before ++ .running task done :: after) finished)
    (hend : task[done]? = none) :
    History started own did (before ++ .checking :: after) (task :: finished) := by
  obtain ⟨htasks, hacts⟩ := h
  have hwhole : task.take done = task :=
    List.take_of_length_le (List.getElem?_eq_none_iff.mp hend)
  have hidle : runningTasks [(Worker.checking : Worker α)] = [] := rfl
  have hbusy : runningTasks [Worker.running task done] = [(task, done)] := rfl
  rw [runningTasks_append_cons, hbusy] at htasks hacts
  refine ⟨?_, ?_⟩
  · rw [runningTasks_append_cons, hidle]
    simp only [List.map_append, List.map_cons, List.append_assoc, List.cons_append,
      List.nil_append] at htasks ⊢
    refine htasks.trans ?_
    rw [← List.append_assoc _ _ (task :: finished)]
    exact (List.perm_middle.trans (by rw [List.append_assoc])).trans List.perm_middle.symm
  · rw [runningTasks_append_cons, hidle]
    simp only [List.map_append, List.map_cons, List.append_assoc, List.cons_append,
      List.nil_append, hwhole] at hacts ⊢
    refine hacts.of_perm (.cons _ ?_)
    rw [← List.append_assoc _ _ (task :: finished)]
    exact (List.perm_middle.trans (by rw [List.append_assoc])).trans List.perm_middle.symm

theorem History.step
    {spurious : Bool} {event : Event α}
    (h : History started own did s.workers finished)
    (hstep : Step s spurious event s') :
    ∃ finished', History (started ++ event.starts) (own ++ event.ownActs) (did ++ event.acts)
      s'.workers finished' := by
  have hsame : ∀ {workers : List (Worker α)}, runningTasks workers = runningTasks s.workers →
      ∃ finished', History (started ++ []) (own ++ []) (did ++ []) workers finished' := by
    intro workers hworkers
    refine ⟨finished, ?_, ?_⟩
    · rw [hworkers, List.append_nil]
      exact h.tasks
    · rw [hworkers, List.append_nil, List.append_nil]
      exact h.acts
  cases hstep with
  | sleep hworkers hempty hopen =>
      exact hsame (by rw [hworkers, runningTasks_append_cons, runningTasks_append_cons]; rfl)
  | exit hworkers hempty hclosed =>
      exact hsame (by rw [hworkers, runningTasks_append_cons, runningTasks_append_cons]; rfl)
  | @start before after task hworkers hsome hfront =>
      rw [hworkers] at h
      refine ⟨finished, ?_⟩
      simpa [Event.ownActs, Event.acts, Event.starts] using h.start task
  | @act before after task done a hworkers ha =>
      rw [hworkers] at h
      refine ⟨finished, ?_⟩
      simpa [Event.ownActs, Event.acts, Event.starts] using h.act ha
  | @finish before after task done hworkers hend =>
      rw [hworkers] at h
      refine ⟨task :: finished, ?_⟩
      simpa [Event.ownActs, Event.acts, Event.starts] using h.finish hend
  | full howner hcalls hfull =>
      exact hsame rfl
  | submit howner hcalls hroom hsignal =>
      exact hsame hsignal.runningTasks
  | batch howner hcalls hroom =>
      exact hsame (runningTasks_broadcastWork _)
  | batchFull howner hcalls hfull =>
      exact hsame (runningTasks_broadcastWork _)
  | waitMore howner hcalls hmore =>
      exact hsame rfl
  | waited howner hcalls hempty hidle =>
      exact hsame rfl
  | destroy howner hcalls =>
      exact hsame (runningTasks_broadcastWork _)
  | joined howner hcalls hexited =>
      exact hsame rfl
  | @ownAct a rest calls howner hcalls =>
      refine ⟨finished, ?_, h.acts.snoc_head a⟩
      have hstarts : (Event.ownerDid a).starts = [] := rfl
      rw [hstarts, List.append_nil]
      exact h.tasks
  | ownEnd howner hcalls =>
      exact hsame rfl
  | workerWakes hworkers =>
      exact hsame (by rw [hworkers, runningTasks_append_cons, runningTasks_append_cons]; rfl)
  | ownerWakes howner =>
      exact hsame rfl

theorem History.run
    {turns : List Turn} {events : List (Event α)}
    (h : History started own did s.workers finished)
    (hrun : Pool.run s turns = some (events, s')) :
    ∃ finished', History (started ++ startedOf events) (own ++ ownOf events)
      (did ++ didOf events) s'.workers finished' := by
  induction turns generalizing s started own did finished events with
  | nil =>
      cases hrun
      refine ⟨finished, ?_⟩
      simpa [startedOf, ownOf, didOf] using h
  | cons turn turns ih =>
      rw [Pool.run] at hrun
      obtain ⟨⟨event, s₁⟩, hturn, hrest⟩ := Option.bind_eq_some_iff.mp hrun
      obtain ⟨⟨events₁, s₂⟩, hrun₁, heq⟩ := Option.map_eq_some_iff.mp hrest
      cases heq
      obtain ⟨finished₁, hfirst⟩ := h.step (.of_takeTurn hturn)
      obtain ⟨finished₂, hsecond⟩ := ih hfirst hrun₁
      refine ⟨finished₂, ?_⟩
      rwa [List.append_assoc, List.append_assoc, List.append_assoc] at hsecond

theorem createPool_history
    (numThreads : Nat) (calls : List (Call α)) :
    History [] [] [] (createPool numThreads calls).workers [] := by
  have hidle : runningTasks (createPool numThreads calls).workers = [] := by
    apply List.filterMap_eq_nil_iff.mpr
    intro worker hworker
    rw [List.eq_of_mem_replicate hworker]
  refine ⟨?_, ?_⟩
  · rw [hidle]
    rfl
  · rw [hidle]
    exact .done (by simp)

end Histories

section Returns

variable {s : State α} {queued : List (List α)} {numThreads : Nat} {calls : List (Call α)}
    {turns : List Turn} {events : List (Event α)}

theorem length_runningTasks (workers : List (Worker α)) :
    (runningTasks workers).length = workers.countP Worker.isRunning := by
  induction workers with
  | nil =>
      rfl
  | cons worker workers ih =>
      cases worker with
      | running task done =>
          rw [List.countP_cons_of_pos rfl, ← ih]
          rfl
      | checking =>
          rw [List.countP_cons_of_neg (by rintro ⟨⟩), ← ih]
          rfl
      | sleeping =>
          rw [List.countP_cons_of_neg (by rintro ⟨⟩), ← ih]
          rfl
      | exited =>
          rw [List.countP_cons_of_neg (by rintro ⟨⟩), ← ih]
          rfl

/-- A call that reports back does so when no task is left. -/
theorem Sound.idle_of_returned
    {s' : State α} {spurious : Bool}
    (h : Sound s queued)
    (hstep : Step s spurious .returned s') :
    queued = [] ∧ runningTasks s.workers = [] := by
  cases hstep with
  | waited howner hcalls hempty hidle =>
      refine ⟨h.queued_eq_nil hempty, List.length_eq_zero_iff.mp ?_⟩
      rw [length_runningTasks, ← h.active, hidle]
  | joined howner hcalls hexited =>
      obtain ⟨worker, hworker⟩ := List.exists_mem_of_ne_nil _ h.nonempty
      have hsound := h.workers worker hworker
      rw [hexited worker hworker] at hsound
      refine ⟨hsound.2, List.length_eq_zero_iff.mp ?_⟩
      rw [length_runningTasks, List.countP_eq_zero]
      intro other hother
      rw [hexited other hother]
      exact Bool.false_ne_true

/-- Tasks are taken in the order in which they were submitted, each one once and none that
was not, whatever the threads do in between; what was not taken is in the queue, never more
than it has room for, and the count of tasks under way is right. -/
theorem pool_is_first_in_first_out
    (hthreads : 0 < numThreads) (hlast : destroyedLast calls)
    (hrun : run (createPool numThreads calls) turns = some (events, s)) :
    ∃ queued, enqueuedOf events = startedOf events ++ queued ∧ s.queue.Holds queued ∧
      queued.length ≤ poolQueueCapacity ∧ s.activeTasks = (runningTasks s.workers).length := by
  obtain ⟨queued, hqueued, hsound⟩ := (createPool_sound hthreads hlast).run hrun
  refine ⟨queued, by rwa [List.nil_append] at hqueued, hsound.queue, ?_, ?_⟩
  · exact hsound.capacity ▸ hsound.queue.fits
  · rw [length_runningTasks, hsound.active]

/-- Three tasks, work of the owner and a wait. -/
def sampleCalls : List (Call Nat) :=
  [.submit [1, 2], .own [7], .submitBatch [[3], []], .wait]

/-- Two workers; the owner sleeps until both are done. -/
def sampleTurns : List Turn :=
  [.owner 0, .worker 1, .worker 0, .owner 0, .worker 1, .wakeWorker 0, .owner 0, .worker 1,
    .owner 0, .worker 1, .worker 1, .owner 0, .worker 0, .worker 1, .worker 1, .worker 0, .owner 0]

theorem pool_is_first_in_first_out_sample :
    ∃ events s queued, run (createPool 2 sampleCalls) sampleTurns = some (events, s) ∧
      enqueuedOf events = startedOf events ++ queued ∧ s.queue.Holds queued ∧
      queued.length ≤ poolQueueCapacity ∧ s.activeTasks = (runningTasks s.workers).length := by
  obtain ⟨⟨events, s⟩, hrun⟩ := Option.isSome_iff_exists.mp
    (show (run (createPool 2 sampleCalls) sampleTurns).isSome by decide +kernel)
  obtain ⟨queued, hqueued⟩ := pool_is_first_in_first_out (by norm_num)
    (show destroyedLast sampleCalls from trivial) hrun
  exact ⟨events, s, queued, hrun, hqueued⟩

/-- With nothing in the queue and nothing under way, all that was submitted has been done. -/
theorem interleaving_of_idle
    {events : List (Event α)} {finished : List (List α)}
    (hqueued : enqueuedOf events = startedOf events)
    (hhistory : History (startedOf events) (ownOf events) (didOf events) s.workers finished)
    (hidle : runningTasks s.workers = []) :
    Interleaving (ownOf events :: enqueuedOf events) (didOf events) := by
  obtain ⟨htasks, hacts⟩ := hhistory
  rw [hidle] at htasks hacts
  rw [hqueued]
  exact hacts.of_perm (.cons _ htasks.symm)

/-- When a wait or the destruction of the pool returns, every task submitted so far has been
done, from its first action to its last, exactly once and in its own order; what was done
is an interleaving of these tasks and of the owner's work. -/
theorem pool_returns_when_all_is_done
    (hthreads : 0 < numThreads) (hlast : destroyedLast calls)
    (hrun : run (createPool numThreads calls) turns = some (events, s))
    (hreturned : events.getLast? = some .returned) :
    Interleaving (ownOf events :: enqueuedOf events) (didOf events) := by
  rcases List.eq_nil_or_concat turns with rfl | ⟨turns₀, turn, rfl⟩
  · cases hrun
    cases hreturned
  · rw [List.concat_eq_append] at hrun
    obtain ⟨events₀, s₁, event, hrun₀, hturn, rfl⟩ := run_concat hrun
    rw [List.getLast?_append, List.getLast?_singleton, Option.some_or, Option.some.injEq]
      at hreturned
    subst hreturned
    obtain ⟨queued, hqueued, hsound⟩ := (createPool_sound hthreads hlast).run hrun₀
    obtain ⟨finished, hhistory⟩ := (createPool_history numThreads calls).run hrun₀
    obtain ⟨rfl, hidle⟩ := hsound.idle_of_returned (.of_takeTurn hturn)
    rw [List.nil_append, List.append_nil] at hqueued
    have hdone := interleaving_of_idle hqueued hhistory hidle
    simpa [enqueuedOf, ownOf, didOf, Event.enqueues, Event.ownActs, Event.acts] using hdone

theorem pool_returns_when_all_is_done_sample :
    ∃ events s, run (createPool 2 sampleCalls) sampleTurns = some (events, s) ∧
      events.getLast? = some .returned ∧
      Interleaving (ownOf events :: enqueuedOf events) (didOf events) := by
  have hlast : (run (createPool 2 sampleCalls) sampleTurns).map (fun r => r.1.getLast?) =
      some (some .returned) := by
    decide +kernel
  obtain ⟨⟨events, s⟩, hrun, hreturned⟩ := Option.map_eq_some_iff.mp hlast
  exact ⟨events, s, hrun, hreturned,
    pool_returns_when_all_is_done (by norm_num) (show destroyedLast sampleCalls from trivial) hrun
      hreturned⟩

end Returns

end Pool
end QioParquet
