/-
What shutting down loses.

Once `stop` is set no worker fetches a task again.  So a task that is still queued
then, or is accepted later, is never executed; and nothing else is lost, because a
worker exits only after it has finished what it fetched, and `destroyThreadPool`
waits for the workers it joins.  Which workers it joins is the other half: it joins
`MAX_THREADS` entries of `threads`, whatever `initThreadPool` wrote there.
-/
import DnsServer.Proofs.TaskQueue
import Mathlib.Algebra.BigOperators.Fin
import Mathlib.Data.Multiset.AddSub

namespace DnsServer

open Call Runs

variable {φ α : Type} {n : Nat}

/-! ### Tasks in the hands of workers -/

/-- The task whose execution a step ended. -/
def PoolEvent.finished? : PoolEvent φ α n → Option (ThreadPoolTask φ α)
  | finished _ task => some task
  | _ => none

/-- The tasks executed on a run, in order of their ends. -/
def finishedTasks (events : List (PoolEvent φ α n)) : List (ThreadPoolTask φ α) :=
  events.filterMap PoolEvent.finished?

/-- The task a worker is executing, if it is. -/
def WorkerState.inHand : WorkerState φ α → Multiset (ThreadPoolTask φ α)
  | executing task => {task}
  | _ => 0

/-- The tasks being executed. -/
def tasksInHand (workers : Fin n → WorkerState φ α) : Multiset (ThreadPoolTask φ α) :=
  ∑ i, (workers i).inHand

/-- What is in hand changes by what one worker lets go and takes. -/
theorem tasksInHand_update (workers : Fin n → WorkerState φ α) (i : Fin n)
    (state : WorkerState φ α) :
    tasksInHand (Function.update workers i state) + (workers i).inHand
      = tasksInHand workers + state.inHand := by
  unfold tasksInHand
  have hold := Finset.add_sum_erase Finset.univ (fun j => (workers j).inHand) (Finset.mem_univ i)
  have hnew := Finset.add_sum_erase Finset.univ
    (fun j => (Function.update workers i state j).inHand) (Finset.mem_univ i)
  have hrest : ∑ j ∈ Finset.univ.erase i, (Function.update workers i state j).inHand
      = ∑ j ∈ Finset.univ.erase i, (workers j).inHand := by
    refine Finset.sum_congr rfl ?_
    intro j hj
    rw [Function.update_of_ne (Finset.ne_of_mem_erase hj)]
  rw [← hold, ← hnew, hrest, Function.update_self, add_right_comm, add_comm state.inHand,
    add_right_comm]

/-- Nothing changes hands when a worker with nothing in hand turns to a state with nothing in
hand. -/
theorem tasksInHand_idle {workers : Fin n → WorkerState φ α} {i : Fin n}
    {state : WorkerState φ α} (hbefore : (workers i).inHand = 0) (hafter : state.inHand = 0) :
    tasksInHand (Function.update workers i state) = tasksInHand workers := by
  have h := tasksInHand_update workers i state
  rw [hbefore, hafter, add_zero, add_zero] at h
  exact h

theorem tasksInHand_fetch {workers : Fin n → WorkerState φ α} {i : Fin n}
    (task : ThreadPoolTask φ α) (h : (workers i).inHand = 0) :
    tasksInHand (Function.update workers i (.executing task)) = tasksInHand workers + {task} := by
  have hupdate := tasksInHand_update workers i (.executing task)
  rw [h, add_zero] at hupdate
  exact hupdate

theorem tasksInHand_finish {workers : Fin n → WorkerState φ α} {i : Fin n}
    {task : ThreadPoolTask φ α} (h : workers i = .executing task) :
    tasksInHand workers = tasksInHand (Function.update workers i .awake) + {task} := by
  have hupdate := tasksInHand_update workers i .awake
  rw [h] at hupdate
  exact (add_zero _).symm.trans hupdate.symm

theorem tasksInHand_signals {workers workers' : Fin n → WorkerState φ α}
    (h : Signals workers workers') : tasksInHand workers' = tasksInHand workers := by
  rcases h with ⟨i, hi⟩ | -
  · exact tasksInHand_idle (by rw [hi]; rfl) rfl
  · rfl

theorem tasksInHand_broadcast (workers : Fin n → WorkerState φ α) :
    tasksInHand (broadcast workers) = tasksInHand workers := by
  unfold tasksInHand
  refine Finset.sum_congr rfl ?_
  intro i _
  unfold broadcast
  rcases workers i with _ | task | _ | _ <;> rfl

/-- Every task fetched has been executed or is being executed. -/
def HandInv (events : List (PoolEvent φ α n)) (s : PoolState φ α n) : Prop :=
  (fetchedTasks events : Multiset (ThreadPoolTask φ α))
    = finishedTasks events + tasksInHand s.workers

theorem HandInv.other {events : List (PoolEvent φ α n)} {s s' : PoolState φ α n}
    {event : PoolEvent φ α n} (h : HandInv events s) (hfetched : event.fetched? = none)
    (hfinished : event.finished? = none) (hhand : tasksInHand s'.workers = tasksInHand s.workers) :
    HandInv (events ++ [event]) s' := by
  unfold HandInv fetchedTasks finishedTasks at *
  simp only [List.filterMap_append, List.filterMap_cons, hfetched, hfinished, List.filterMap_nil,
    List.append_nil, hhand]
  exact h

theorem handInv_step {events : List (PoolEvent φ α n)} {s s' : PoolState φ α n}
    {event : PoolEvent φ α n} (h : HandInv events s) (hstep : PoolStep s event s') :
    HandInv (events ++ [event]) s' := by
  rcases hstep with ⟨-, hsignal⟩ | - | @⟨i, task, pool, hawake, -⟩ | ⟨hawake, -⟩ | ⟨hawake, -⟩ |
    @⟨i, task, hbusy⟩ | hasleep | -
  · exact h.other rfl rfl (tasksInHand_signals hsignal)
  · exact h.other rfl rfl rfl
  · unfold HandInv fetchedTasks finishedTasks at *
    simp only [List.filterMap_append, List.filterMap_cons, PoolEvent.fetched?,
      PoolEvent.finished?, List.filterMap_nil, List.append_nil]
    rw [← Multiset.coe_add, h, add_assoc, tasksInHand_fetch task (by rw [hawake]; rfl)]
    rfl
  · exact h.other rfl rfl (tasksInHand_idle (by rw [hawake]; rfl) rfl)
  · exact h.other rfl rfl (tasksInHand_idle (by rw [hawake]; rfl) rfl)
  · unfold HandInv fetchedTasks finishedTasks at *
    simp only [List.filterMap_append, List.filterMap_cons, PoolEvent.fetched?,
      PoolEvent.finished?, List.filterMap_nil, List.append_nil]
    rw [← Multiset.coe_add, h, tasksInHand_finish hbusy, add_assoc, add_comm (tasksInHand _)]
    rfl
  · exact h.other rfl rfl (tasksInHand_idle (by rw [hasleep]; rfl) rfl)
  · exact h.other rfl rfl (tasksInHand_broadcast s.workers)

theorem handInv_start {s : PoolState φ α n} (h : PoolStart s) : HandInv [] s := by
  have hnone : tasksInHand s.workers = 0 := by
    refine Finset.sum_eq_zero ?_
    intro i _
    rw [h.workers i]
    rfl
  unfold HandInv
  rw [hnone]
  rfl

theorem handInv_trace {events : List (PoolEvent φ α n)} {s : PoolState φ α n}
    (h : Trace PoolStart PoolStep events s) : HandInv events s :=
  Trace.inv (fun _ => handInv_start) (fun _ _ _ _ hs hstep => handInv_step hs hstep) h

/-! ### The pool within a shutdown -/

/-- What a step did to the pool. -/
def ShutdownEvent.pool? : ShutdownEvent φ α n → Option (PoolEvent φ α n)
  | pool event => some event
  | joined _ => none

/-- What happened to the pool on a run, in order. -/
def poolEvents (events : List (ShutdownEvent φ α n)) : List (PoolEvent φ α n) :=
  events.filterMap ShutdownEvent.pool?

theorem ShutdownStart.poolStart {s : ShutdownState φ α n} (h : ShutdownStart s) :
    PoolStart s.state := by
  have hpool := poolStart_of_init h.pool
  exact ⟨hpool.size, hpool.front, hpool.rear, hpool.stop, h.workers⟩

theorem poolTrace {events : List (ShutdownEvent φ α n)} {s : ShutdownState φ α n}
    (h : Trace ShutdownStart ShutdownStep events s) :
    Trace PoolStart PoolStep (poolEvents events) s.state := by
  induction h with
  | start hs => exact Trace.start hs.poolStart
  | step _ hstep ih =>
      rw [poolEvents, List.filterMap_append]
      rcases hstep with ⟨-, -, hpool⟩ | ⟨-, hpool⟩ | - | -
      · exact Trace.step ih hpool
      · exact Trace.step ih hpool
      · rw [List.filterMap_cons, ShutdownEvent.pool?, List.filterMap_nil, List.append_nil]
        exact ih
      · rw [List.filterMap_cons, ShutdownEvent.pool?, List.filterMap_nil, List.append_nil]
        exact ih

theorem addTask_threads {pool pool' : ThreadPool φ α} {function : φ} {argument : α} {r : Int}
    (h : addTaskToThreadPool pool function argument = done (r, pool')) :
    pool'.threads = pool.threads := by
  unfold addTaskToThreadPool at h
  split at h
  · rw [done.injEq, Prod.mk.injEq] at h
    rw [← h.2]
  · rcases hslot : queueSlot pool.queueRear with _ | slot
    · simp [hslot] at h
    · simp only [hslot, done.injEq, Prod.mk.injEq] at h
      rw [← h.2]

theorem threadWorkerTurn_threads {pool pool' : ThreadPool φ α} {turn : WorkerTurn φ α}
    (h : threadWorkerTurn pool = done (turn, pool')) : pool'.threads = pool.threads := by
  unfold threadWorkerTurn at h
  split at h
  · rw [done.injEq, Prod.mk.injEq] at h
    rw [← h.2]
  split at h
  · rw [done.injEq, Prod.mk.injEq] at h
    rw [← h.2]
  rcases hslot : (queueSlot pool.queueFront).bind pool.taskQueue with _ | task
  · simp [hslot] at h
  · simp only [hslot, done.injEq, Prod.mk.injEq] at h
    rw [← h.2]

/-- Nobody writes `threads` after `initThreadPool`. -/
theorem poolStep_threads {s s' : PoolState φ α n} {event : PoolEvent φ α n}
    (h : PoolStep s event s') : s'.pool.threads = s.pool.threads := by
  rcases h with ⟨hadd, -⟩ | hadd | ⟨-, hturn⟩ | ⟨-, hturn⟩ | ⟨-, hturn⟩ | - | - | -
  · exact addTask_threads hadd
  · exact addTask_threads hadd
  · exact threadWorkerTurn_threads hturn
  · exact threadWorkerTurn_threads hturn
  · exact threadWorkerTurn_threads hturn
  · rfl
  · rfl
  · rfl

/-- Once stopped, the pool stays stopped. -/
theorem poolStep_stop {s s' : PoolState φ α n} {event : PoolEvent φ α n}
    (h : PoolStep s event s') :
    s'.pool.stop = s.pool.stop ∨ (event = .stopped ∧ s'.pool.stop = 1) := by
  rcases h with ⟨hadd, -⟩ | hadd | ⟨-, hturn⟩ | ⟨-, hturn⟩ | ⟨-, hturn⟩ | - | - | -
  · exact Or.inl (addTask_accepted hadd).2
  · rw [addTask_refused hadd]
    exact Or.inl rfl
  · exact Or.inl (threadWorkerTurn_fetch hturn).2.2.2
  · exact Or.inl (congrArg ThreadPool.stop (threadWorkerTurn_wait hturn).2.2)
  · exact Or.inl (congrArg ThreadPool.stop (threadWorkerTurn_exit hturn).2)
  · exact Or.inl rfl
  · exact Or.inl rfl
  · exact Or.inr ⟨rfl, rfl⟩

/-- A thread that has exited does nothing any more. -/
theorem poolStep_exited {s s' : PoolState φ α n} {event : PoolEvent φ α n} {i : Fin n}
    (h : PoolStep s event s') (hi : s.workers i = .exited) : s'.workers i = .exited := by
  have other : ∀ {j : Fin n} {state : WorkerState φ α}, s.workers j ≠ .exited →
      Function.update s.workers j state i = .exited := by
    intro j state hj
    by_cases hij : i = j
    · subst hij
      exact absurd hi hj
    · rw [Function.update_of_ne hij, hi]
  rcases h with ⟨-, ⟨j, hj⟩ | -⟩ | - | ⟨hawake, -⟩ | ⟨hawake, -⟩ | ⟨hawake, -⟩ | hbusy | hasleep | -
  · exact other (by rw [hj]; simp)
  · exact hi
  · exact hi
  · exact other (by rw [hawake]; simp)
  · exact other (by rw [hawake]; simp)
  · exact other (by rw [hawake]; simp)
  · exact other (by rw [hbusy]; simp)
  · exact other (by rw [hasleep]; simp)
  · show broadcast s.workers i = .exited
    unfold broadcast
    rw [hi]

/-! ### The join loop -/

/-- What entry `i` of `threads` is in a pool of `n` workers. -/
def threadEntry (n i : Nat) : Option Nat := if i < n then some i else none

/-- Where the destroyer is says what it has joined, and who has exited by then. -/
structure JoinInv (s : ShutdownState φ α n) : Prop where
  fits : n ≤ maxThreads
  threads : ∀ i : Fin maxThreads, s.state.pool.threads i = threadEntry n i
  notCalled : s.destroyer = .notCalled → s.joined = []
  joined : ∀ i, s.destroyer = .joining i → s.joined = (List.range i).map (threadEntry n)
  exited : ∀ i, s.destroyer = .joining i → ∀ w : Fin n, w < i → s.state.workers w = .exited
  stopped : ∀ i, s.destroyer = .joining i → s.state.pool.stop ≠ 0

variable {s s' : ShutdownState φ α n} {event : ShutdownEvent φ α n}
  {events : List (ShutdownEvent φ α n)}

theorem joinInv_start (h : ShutdownStart s) : JoinInv s := by
  have hpool := h.pool
  unfold initThreadPool at hpool
  split at hpool
  · rename_i hfits
    rw [done.injEq] at hpool
    refine ⟨hfits, ?_, fun _ => h.joined, ?_, ?_, ?_⟩
    · intro i
      rw [← hpool]
      rfl
    all_goals
      intro i hi
      rw [h.destroyer] at hi
      simp at hi
  · simp at hpool

theorem joinInv_join {i : Fin maxThreads} {thread : Option Nat} (h : JoinInv s)
    (hat : s.destroyer = .joining i) (hthread : s.state.pool.threads i = thread)
    (hexited : ∀ w : Fin n, w = i.val → s.state.workers w = .exited) :
    JoinInv { s with destroyer := .joining (i + 1), joined := s.joined ++ [thread] } := by
  refine ⟨h.fits, h.threads, by simp, ?_, ?_, ?_⟩
  · intro j hj
    rw [Destroyer.joining.injEq] at hj
    subst hj
    rw [List.range_succ, List.map_append, List.map_singleton, ← h.threads i, hthread,
      h.joined i hat]
  · intro j hj w hw
    rw [Destroyer.joining.injEq] at hj
    rcases Nat.lt_or_ge w i with hlt | hge
    · exact h.exited i hat w hlt
    · exact hexited w (by omega)
  · intro _ _
    exact h.stopped i hat

theorem joinInv_step (h : JoinInv s) (hstep : ShutdownStep s event s') : JoinInv s' := by
  rcases hstep with ⟨-, -, hpool⟩ | ⟨hcall, hpool⟩ | @⟨i, worker, hat, hthread, hexited⟩ |
    @⟨i, hat, hthread⟩
  · refine ⟨h.fits, ?_, h.notCalled, h.joined, ?_, ?_⟩
    · rw [poolStep_threads hpool]
      exact h.threads
    · intro i hi w hw
      exact poolStep_exited hpool (h.exited i hi w hw)
    · intro i hi
      rcases poolStep_stop hpool with hsame | ⟨-, hone⟩
      · rw [hsame]
        exact h.stopped i hi
      · rw [hone]
        exact one_ne_zero
  · refine ⟨h.fits, ?_, by simp, ?_, ?_, ?_⟩
    · rw [poolStep_threads hpool]
      exact h.threads
    · intro i hi
      rw [Destroyer.joining.injEq] at hi
      subst hi
      exact h.notCalled hcall
    · intro i hi w hw
      rw [Destroyer.joining.injEq] at hi
      omega
    · intro _ _
      rcases hpool
      exact one_ne_zero
  · refine joinInv_join h hat hthread ?_
    intro w hw
    have hentry := h.threads i
    rw [hthread, threadEntry, if_pos (by omega), Option.some.injEq] at hentry
    rw [show w = worker from Fin.ext (by omega)]
    exact hexited
  · refine joinInv_join h hat hthread ?_
    intro w hw
    have hentry := h.threads i
    rw [hthread, threadEntry, if_pos (by omega)] at hentry
    simp at hentry

theorem joinInv_trace (h : Trace ShutdownStart ShutdownStep events s) : JoinInv s := by
  induction h with
  | start hs => exact joinInv_start hs
  | step _ hstep ih => exact joinInv_step ih hstep

/-! ### Losing tasks -/

/-- The step does not stop workers with tasks queued, nor adds a task for stopped workers. -/
def Orderly (s : ShutdownState φ α n) : ShutdownEvent φ α n → Prop
  | .pool .stopped => s.state.pool.queueSize = 0
  | .pool (.added _) => s.state.pool.stop = 0
  | _ => True

/-- Workers that have been stopped, with tasks queued. -/
structure Stranded (s : PoolState φ α n) : Prop where
  stopped : s.pool.stop ≠ 0
  queued : 0 < s.pool.queueSize

theorem stranded_step {s s' : PoolState φ α n} {event : PoolEvent φ α n} (h : Stranded s)
    (hstep : PoolStep s event s') : Stranded s' := by
  have same : ∀ {pool : ThreadPool φ α} {workers : Fin n → WorkerState φ α}, pool = s.pool →
      Stranded { pool, workers } := by
    intro pool workers hpool
    exact ⟨by rw [hpool]; exact h.stopped, by rw [hpool]; exact h.queued⟩
  rcases hstep with ⟨hadd, -⟩ | hadd | ⟨-, hturn⟩ | ⟨-, hturn⟩ | ⟨-, hturn⟩ | - | - | -
  · obtain ⟨hsize, hstop⟩ := addTask_accepted hadd
    have hqueued := h.queued
    refine ⟨by rw [hstop]; exact h.stopped, ?_⟩
    show 0 < _
    rw [hsize]
    omega
  · exact same (addTask_refused hadd)
  · exact absurd (threadWorkerTurn_fetch hturn).1 h.stopped
  · exact same (threadWorkerTurn_wait hturn).2.2
  · exact same (threadWorkerTurn_exit hturn).2
  · exact same rfl
  · exact same rfl
  · exact ⟨one_ne_zero, h.queued⟩

theorem stranded_shutdownStep (h : Stranded s.state) (hstep : ShutdownStep s event s') :
    Stranded s'.state := by
  rcases hstep with ⟨-, -, hpool⟩ | ⟨-, hpool⟩ | - | -
  · exact stranded_step h hpool
  · exact stranded_step h hpool
  · exact h
  · exact h

theorem stranded_of_not_orderly (hqueue : 0 ≤ s.state.pool.queueSize)
    (hstep : ShutdownStep s event s') (h : ¬ Orderly s event) : Stranded s'.state := by
  have pool : ∀ {event : PoolEvent φ α n} {state : PoolState φ α n}, ¬ Orderly s (.pool event) →
      PoolStep s.state event state → Stranded state := by
    intro event state hnot hpool
    rcases hpool with ⟨hadd, -⟩ | - | - | - | - | - | - | -
    · obtain ⟨hsize, hstop⟩ := addTask_accepted hadd
      refine ⟨by rw [hstop]; exact hnot, ?_⟩
      show 0 < _
      rw [hsize]
      omega
    · exact absurd trivial hnot
    · exact absurd trivial hnot
    · exact absurd trivial hnot
    · exact absurd trivial hnot
    · exact absurd trivial hnot
    · exact absurd trivial hnot
    · exact ⟨one_ne_zero, lt_of_le_of_ne hqueue (Ne.symm hnot)⟩
  rcases hstep with ⟨-, -, hpool⟩ | ⟨-, hpool⟩ | - | -
  · exact pool h hpool
  · exact pool h hpool
  · exact absurd trivial h
  · exact absurd trivial h

/-- On an orderly run stopped workers have nothing queued. -/
theorem orderly_queue (h : Trace ShutdownStart (Guarded ShutdownStep Orderly) events s) :
    s.state.pool.stop ≠ 0 → s.state.pool.queueSize = 0 := by
  induction h with
  | start hs => exact fun hstop => absurd hs.poolStart.stop hstop
  | @step _ s s' event _ hstep ih =>
      have pool : ∀ {event : PoolEvent φ α n} {state : PoolState φ α n},
          Orderly s (.pool event) → PoolStep s.state event state → state.pool.stop ≠ 0 →
          state.pool.queueSize = 0 := by
        intro event state horderly hpool hstop
        have same : state.pool = s.state.pool → state.pool.queueSize = 0 := by
          intro hpool
          rw [hpool] at hstop ⊢
          exact ih hstop
        rcases hpool with ⟨hadd, -⟩ | hadd | ⟨-, hturn⟩ | ⟨-, hturn⟩ | ⟨-, hturn⟩ | - | - | -
        · exact absurd ((addTask_accepted hadd).2.trans horderly) hstop
        · exact same (addTask_refused hadd)
        · obtain ⟨hzero, -, -, hsame⟩ := threadWorkerTurn_fetch hturn
          exact absurd (hsame.trans hzero) hstop
        · exact same (threadWorkerTurn_wait hturn).2.2
        · exact same (threadWorkerTurn_exit hturn).2
        · exact same rfl
        · exact same rfl
        · exact horderly
      obtain ⟨hstep, horderly⟩ := hstep
      rcases hstep with ⟨-, -, hpool⟩ | ⟨-, hpool⟩ | - | -
      · exact pool horderly hpool
      · exact pool horderly hpool
      · exact ih
      · exact ih

theorem stranded_loses (h : Trace PoolStart PoolStep (poolEvents events) s.state)
    (hstranded : Stranded s.state) :
    ¬ (finishedTasks (poolEvents events)).Perm (acceptedTasks (poolEvents events)) := by
  intro hperm
  obtain ⟨front, queue, hqueue, hfifo⟩ := queueInv_trace h
  have hhand := congrArg Multiset.card (handInv_trace h)
  have hlength := congrArg List.length hfifo
  have hqueued := hstranded.queued
  have hsame := hperm.length_eq
  rw [Multiset.card_add, Multiset.coe_card, Multiset.coe_card] at hhand
  rw [List.length_append] at hlength
  rw [hqueue.size] at hqueued
  omega

theorem orderly_executes (h : Trace ShutdownStart (Guarded ShutdownStep Orderly) events s)
    (hend : s.destroyer = .joining maxThreads) :
    (finishedTasks (poolEvents events)).Perm (acceptedTasks (poolEvents events)) := by
  have htrace := poolTrace h.of_guarded
  have hjoin := joinInv_trace h.of_guarded
  obtain ⟨front, queue, hqueue, hfifo⟩ := queueInv_trace htrace
  have hempty : queue = [] := by
    have hsize := orderly_queue h (hjoin.stopped _ hend)
    rw [hqueue.size] at hsize
    exact List.eq_nil_of_length_eq_zero (by omega)
  have hnone : tasksInHand s.state.workers = 0 := by
    refine Finset.sum_eq_zero ?_
    intro i _
    rw [hjoin.exited _ hend i (Nat.lt_of_lt_of_le i.isLt hjoin.fits)]
    rfl
  have hhand := handInv_trace htrace
  unfold HandInv at hhand
  rw [hnone, add_zero, Multiset.coe_eq_coe] at hhand
  rw [hempty, List.append_nil] at hfifo
  rw [← hfifo]
  exact hhand.symm

/-- Joining every entry joins the workers and only them when there are as many. -/
theorem joined_workers_iff (h : Trace ShutdownStart ShutdownStep events s)
    (hend : s.destroyer = .joining maxThreads) :
    s.joined = (List.range n).map some ↔ n = maxThreads := by
  rw [(joinInv_trace h).joined _ hend]
  refine ⟨?_, ?_⟩
  · intro heq
    have hlength := congrArg List.length heq
    simp only [List.length_map, List.length_range] at hlength
    exact hlength.symm
  · intro heq
    rw [heq]
    refine List.map_congr_left ?_
    intro i hi
    rw [threadEntry, if_pos (List.mem_range.mp hi)]

/--
**What shutting down loses.**  When `destroyThreadPool` has joined its last entry,
every accepted task has been executed once and the workers are the threads joined
exactly when there are `MAX_THREADS` workers and nothing was queued when they were
stopped nor accepted after that.
-/
theorem shutdown_iff_orderly (events : List (ShutdownEvent φ α n)) (s : ShutdownState φ α n)
    (h : Trace ShutdownStart ShutdownStep events s) (hend : s.destroyer = .joining maxThreads) :
    ((finishedTasks (poolEvents events)).Perm (acceptedTasks (poolEvents events)) ∧
      s.joined = (List.range n).map some) ↔
    (n = maxThreads ∧ Trace ShutdownStart (Guarded ShutdownStep Orderly) events s) := by
  rw [joined_workers_iff h hend]
  refine ⟨?_, ?_⟩
  · intro hgood
    refine ⟨hgood.2, ?_⟩
    have hdichotomy : Trace ShutdownStart (Guarded ShutdownStep Orderly) events s ∨
        Stranded s.state := by
      refine @Trace.guarded_or _ _ _ _ Orderly (fun _ t => Stranded t.state) ?_ ?_ _ _ h
      · intro ls t event t' ht hstep hnot
        obtain ⟨front, queue, hqueue, -⟩ := queueInv_trace (poolTrace ht.of_guarded)
        exact stranded_of_not_orderly (by rw [hqueue.size]; omega) hstep hnot
      · intro _ _ _ _ hstranded hstep
        exact stranded_shutdownStep hstranded hstep
    rcases hdichotomy with horderly | hstranded
    · exact horderly
    · exact absurd hgood.1 (stranded_loses (poolTrace h) hstranded)
  · intro hgood
    exact ⟨orderly_executes hgood.2 hend, hgood.1⟩

/-! ### Runs to the end of the join loop -/

/-- The run executes and accepts no more tasks than the one it goes on from. -/
def SameTasks (events events' : List (ShutdownEvent φ α n)) : Prop :=
  acceptedTasks (poolEvents events') = acceptedTasks (poolEvents events) ∧
    finishedTasks (poolEvents events') = finishedTasks (poolEvents events)

theorem SameTasks.next {events events' : List (ShutdownEvent φ α n)}
    (h : SameTasks events events') {event : ShutdownEvent φ α n}
    (hnone : acceptedTasks (poolEvents [event]) = [] ∧ finishedTasks (poolEvents [event]) = []) :
    SameTasks events (events' ++ [event]) := by
  unfold SameTasks poolEvents acceptedTasks finishedTasks at *
  simp only [List.filterMap_append, hnone.1, hnone.2, List.append_nil]
  exact h

/-- Stopped workers that are awake can all exit. -/
theorem exists_exits (h : Trace ShutdownStart ShutdownStep events s)
    (hat : s.destroyer = .joining 0) (hawake : ∀ i, s.state.workers i = .awake) :
    ∃ events', SameTasks events events' ∧
      Trace ShutdownStart ShutdownStep events'
        { s with state := { s.state with workers := fun _ => .exited } } := by
  have hstop := (joinInv_trace h).stopped 0 hat
  have hturn : threadWorkerTurn s.state.pool = done (.exit, s.state.pool) := by
    unfold threadWorkerTurn
    rw [if_neg (by simp [hstop]), if_pos hstop]
  have hsteps : ∀ k, k ≤ n → ∃ events', SameTasks events events' ∧
      Trace ShutdownStart ShutdownStep events'
        { s with state := { s.state with
            workers := fun i => if i.val < k then .exited else .awake } } := by
    intro k
    induction k with
    | zero =>
        intro _
        have hnone : (fun i : Fin n => if i.val < 0 then WorkerState.exited else .awake)
            = s.state.workers := by
          funext i
          rw [hawake i, if_neg (by omega)]
        refine ⟨events, ⟨rfl, rfl⟩, ?_⟩
        rw [hnone]
        exact h
    | succ k ih =>
        intro hk
        obtain ⟨events', hsame, htrace⟩ := ih (by omega)
        have hone : (fun i : Fin n => if i.val < k + 1 then WorkerState.exited else .awake)
            = Function.update (fun i : Fin n => if i.val < k then .exited else .awake)
              ⟨k, hk⟩ (.exited : WorkerState φ α) := by
          funext i
          by_cases hi : i = ⟨k, hk⟩
          · subst hi
            rw [Function.update_self, if_pos (by show k < k + 1; omega)]
          · have hne : i.val ≠ k := fun heq => hi (Fin.ext heq)
            rw [Function.update_of_ne hi]
            by_cases hlt : i.val < k
            · rw [if_pos hlt, if_pos (by omega)]
            · rw [if_neg hlt, if_neg (by omega)]
        refine ⟨events' ++ [.pool (.exited ⟨k, hk⟩)], hsame.next ⟨rfl, rfl⟩, ?_⟩
        rw [hone]
        refine Trace.step htrace (ShutdownStep.pool ?_ (by simp) (PoolStep.exited ?_ hturn))
        · show s.destroyer ≠ _
          rw [hat]
          decide
        · show (if k < k then WorkerState.exited else .awake) = .awake
          rw [if_neg (by omega)]
  obtain ⟨events', hsame, htrace⟩ := hsteps n (Nat.le_refl n)
  have hall : (fun i : Fin n =>
      if i.val < n then (WorkerState.exited : WorkerState φ α) else .awake) = fun _ => .exited := by
    funext i
    rw [if_pos i.isLt]
  rw [hall] at htrace
  exact ⟨events', hsame, htrace⟩

/-- Once they have, the join loop runs to its end. -/
theorem exists_joins (h : Trace ShutdownStart ShutdownStep events s)
    (hat : s.destroyer = .joining 0) (hexited : ∀ i, s.state.workers i = .exited) :
    ∃ events' s', SameTasks events events' ∧ Trace ShutdownStart ShutdownStep events' s' ∧
      s'.destroyer = .joining maxThreads := by
  have hthreads := (joinInv_trace h).threads
  have hsteps : ∀ k, k ≤ maxThreads → ∃ events' s', SameTasks events events' ∧
      Trace ShutdownStart ShutdownStep events' s' ∧ s'.state = s.state ∧
      s'.destroyer = .joining k := by
    intro k
    induction k with
    | zero => exact fun _ => ⟨events, s, ⟨rfl, rfl⟩, h, rfl, hat⟩
    | succ k ih =>
        intro hk
        obtain ⟨events', t, hsame, htrace, hstate, hat'⟩ := ih (by omega)
        have hentry := hthreads ⟨k, hk⟩
        rw [← hstate] at hentry
        by_cases hkn : k < n
        · rw [threadEntry, if_pos hkn] at hentry
          exact ⟨_, _, hsame.next ⟨rfl, rfl⟩,
            Trace.step htrace (@ShutdownStep.join _ _ _ _ ⟨k, hk⟩ ⟨k, hkn⟩ hat' hentry
              (by rw [hstate]; exact hexited _)), hstate, rfl⟩
        · rw [threadEntry, if_neg hkn] at hentry
          exact ⟨_, _, hsame.next ⟨rfl, rfl⟩,
            Trace.step htrace (@ShutdownStep.joinUnwritten _ _ _ _ ⟨k, hk⟩ hat' hentry), hstate,
            rfl⟩
  obtain ⟨events', s', hsame, htrace, -, hend⟩ := hsteps maxThreads (Nat.le_refl _)
  exact ⟨events', s', hsame, htrace, hend⟩

/-- Stopping workers that are all awake, whatever is queued, can run to the end. -/
theorem exists_shutdown (h : Trace ShutdownStart ShutdownStep events s)
    (hcall : s.destroyer = .notCalled) (hawake : ∀ i, s.state.workers i = .awake) :
    ∃ events' s', SameTasks events events' ∧ Trace ShutdownStart ShutdownStep events' s' ∧
      s'.destroyer = .joining maxThreads := by
  have hstop := Trace.step h (ShutdownStep.stop hcall PoolStep.stopped)
  obtain ⟨events₁, hsame₁, hexits⟩ := exists_exits hstop rfl (by
    intro i
    show broadcast s.state.workers i = .awake
    unfold broadcast
    rw [hawake i])
  obtain ⟨events₂, s', hsame₂, hjoins, hend⟩ := exists_joins hexits rfl fun _ => rfl
  have hsame : SameTasks events (events ++ [.pool .stopped]) :=
    SameTasks.next ⟨rfl, rfl⟩ ⟨rfl, rfl⟩
  exact ⟨events₂, s', ⟨by rw [hsame₂.1, hsame₁.1, hsame.1], by rw [hsame₂.2, hsame₁.2, hsame.2]⟩,
    hjoins, hend⟩

theorem exists_start (hn : n ≤ maxThreads) : ∃ s : ShutdownState φ α n, ShutdownStart s := by
  obtain ⟨pool, hpool⟩ : ∃ pool, (initThreadPool n : Call (ThreadPool φ α)) = done pool := by
    unfold initThreadPool
    rw [if_pos hn]
    exact ⟨_, rfl⟩
  exact ⟨⟨⟨pool, fun _ => .awake⟩, .notCalled, []⟩, hpool, fun _ => rfl, rfl, rfl⟩

/-- A worker sleeps and is woken for a task, a second task is accepted, both are executed, and a
full pool is shut down. -/
theorem shutdown_iff_orderly_two :
    ∃ (events : List (ShutdownEvent Nat Nat maxThreads)) (s : ShutdownState Nat Nat maxThreads),
      Trace ShutdownStart ShutdownStep events s ∧ s.destroyer = .joining maxThreads ∧
      acceptedTasks (poolEvents events) = [⟨1, 2⟩, ⟨3, 4⟩] ∧
      finishedTasks (poolEvents events) = [⟨3, 4⟩, ⟨1, 2⟩] ∧
      Trace ShutdownStart (Guarded ShutdownStep Orderly) events s := by
  obtain ⟨pool, hpool, pool₁, pool₂, pool₃, pool₄, hwait, hadd, hadd', hfetch, hfetch'⟩ :
      ∃ pool, (initThreadPool maxThreads : Call (ThreadPool Nat Nat)) = done pool ∧
        ∃ pool₁ pool₂ pool₃ pool₄, threadWorkerTurn pool = done (.wait, pool) ∧
          addTaskToThreadPool pool 1 2 = done (0, pool₁) ∧
          addTaskToThreadPool pool₁ 3 4 = done (0, pool₂) ∧
          threadWorkerTurn pool₂ = done (.execute ⟨1, 2⟩, pool₃) ∧
          threadWorkerTurn pool₃ = done (.execute ⟨3, 4⟩, pool₄) :=
    ⟨_, rfl, _, _, _, _, rfl, rfl, rfl, rfl, rfl⟩
  have hgoes : ∀ {events : List (ShutdownEvent Nat Nat maxThreads)} {state event state'},
      Trace ShutdownStart ShutdownStep events ⟨state, .notCalled, []⟩ → event ≠ .stopped →
      PoolStep state event state' →
        Trace ShutdownStart ShutdownStep (events ++ [.pool event]) ⟨state', .notCalled, []⟩ :=
    fun h hne hstep => Trace.step h (ShutdownStep.pool (by simp) hne hstep)
  have hstart : ShutdownStart (n := maxThreads) ⟨⟨pool, fun _ => .awake⟩, .notCalled, []⟩ :=
    ⟨hpool, fun _ => rfl, rfl, rfl⟩
  let w₀ : Fin maxThreads := ⟨0, by decide⟩
  let w₁ : Fin maxThreads := ⟨1, by decide⟩
  have hnobody : ∀ i, Function.update (Function.update
      (fun _ : Fin maxThreads => (WorkerState.awake : WorkerState Nat Nat)) w₀ .asleep) w₀ .awake i
        ≠ .asleep := by
    intro i
    rw [Function.update_idem, Function.update_apply]
    split <;> simp
  have hslept := hgoes (Trace.start hstart) (by simp) (@PoolStep.slept _ _ _ _ w₀ _ rfl hwait)
  have hadded := hgoes hslept (by simp)
    (@PoolStep.added _ _ _ _ ⟨1, 2⟩ _ _ hadd (Signals.one w₀ rfl))
  have hadded' := hgoes hadded (by simp)
    (@PoolStep.added _ _ _ _ ⟨3, 4⟩ _ _ hadd' (Signals.nobody hnobody))
  have hfetched := hgoes hadded' (by simp) (@PoolStep.fetched _ _ _ _ w₀ _ _ rfl hfetch)
  have hfetched' := hgoes hfetched (by simp) (@PoolStep.fetched _ _ _ _ w₁ _ _ rfl hfetch')
  have hfinished := hgoes hfetched' (by simp) (@PoolStep.finished _ _ _ _ w₁ ⟨3, 4⟩ rfl)
  have hfinished' := hgoes hfinished (by simp) (@PoolStep.finished _ _ _ _ w₀ ⟨1, 2⟩ rfl)
  obtain ⟨events, s', hsame, htrace, hend⟩ := exists_shutdown hfinished' rfl (by
    intro i
    simp only [Function.update_apply]
    repeat' split
    all_goals rfl)
  have hperm : (finishedTasks (poolEvents events)).Perm (acceptedTasks (poolEvents events)) := by
    rw [hsame.1, hsame.2]
    exact List.Perm.swap _ _ _
  have hjoined := (joined_workers_iff htrace hend).mpr rfl
  exact ⟨events, s', htrace, hend, hsame.1, hsame.2,
    ((shutdown_iff_orderly events s' htrace hend).mp ⟨hperm, hjoined⟩).2⟩

/-- A task is accepted, the workers are stopped before one of them looks, and a pool of
`MAX_THREADS` workers is joined without it. -/
theorem shutdown_loses_task :
    ∃ (events : List (ShutdownEvent Nat Nat maxThreads)) (s : ShutdownState Nat Nat maxThreads),
      Trace ShutdownStart ShutdownStep events s ∧ s.destroyer = .joining maxThreads ∧
      acceptedTasks (poolEvents events) = [⟨1, 2⟩] ∧ finishedTasks (poolEvents events) = [] := by
  obtain ⟨s, hs⟩ : ∃ s : ShutdownState Nat Nat maxThreads, ShutdownStart s :=
    exists_start (Nat.le_refl _)
  have hstart := hs.poolStart
  have hqueue : QueueAt s.state.pool 0 [] :=
    ⟨Nat.zero_le _, hstart.size, hstart.front, by decide, hstart.rear, rfl⟩
  obtain ⟨pool, hadd, -⟩ := addTask_room hqueue (by decide) 1 2
  have hsignal : Signals s.state.workers s.state.workers := Signals.nobody fun i => by
    rw [hstart.workers i]
    simp
  have hadded := Trace.step (Trace.start hs) (ShutdownStep.pool (by rw [hs.destroyer]; simp)
    (by simp) (@PoolStep.added _ _ _ _ ⟨1, 2⟩ _ _ hadd hsignal))
  obtain ⟨events, s', hsame, htrace, hend⟩ := exists_shutdown hadded hs.destroyer hs.workers
  exact ⟨events, s', htrace, hend, hsame.1, hsame.2⟩

end DnsServer
