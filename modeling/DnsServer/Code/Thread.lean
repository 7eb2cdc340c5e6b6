/-
The thread pool, as `thread.c` has it.

Every critical section under `lock` is one function from the pool to the pool and
what the section decides; a queue index that is out of its array, or a slot read
before it was ever written, is undefined.  `PoolStep` puts the sections of any
number of workers and of the acceptor together: a run is any interleaving of them
with the ends of tasks and with wake-ups.

A worker in `pthread_cond_wait` is asleep.  When it is woken it takes the lock again
and looks at the queue again, so waking only makes it awake; a signal wakes one
sleeper if there is one, a broadcast wakes them all, and any sleeper may wake by
itself.

`ShutdownStep` adds the one call of `destroyThreadPool`: it stops the workers, joins
the entries of `threads` one after the other and frees the pool.
-/
import DnsServer.Lib.Loop
import Mathlib.Logic.Function.Basic

namespace DnsServer

/-- `MAX_THREADS`. -/
def maxThreads : Nat := 10

/-- `MAX_QUEUE`. -/
def maxQueue : Nat := 100

structure ThreadPoolTask (φ α : Type) where
  function : φ
  argument : α
  deriving DecidableEq

/-- An entry of `threads` or `taskQueue` is `none` until it is first written. -/
structure ThreadPool (φ α : Type) where
  threads : Fin maxThreads → Option Nat
  taskQueue : Fin maxQueue → Option (ThreadPoolTask φ α)
  queueSize : Int
  queueFront : Int
  queueRear : Int
  stop : Int

variable {φ α : Type} {n : Nat}

/-- The pool `initThreadPool` makes, with the threads it creates numbered in order. -/
def initThreadPool (threadCount : Nat) : Call (ThreadPool φ α) :=
  if threadCount ≤ maxThreads then
    .done
      { threads := fun i => if i < threadCount then some i else none
        taskQueue := fun _ => none
        queueSize := 0, queueFront := 0, queueRear := 0, stop := 0 }
  else .undefined

/-! ### Critical sections -/

/-- An index of `task_queue`, where it is one. -/
def queueSlot (i : Int) : Option (Fin maxQueue) :=
  if h : 0 ≤ i ∧ i < maxQueue then some ⟨i.toNat, by omega⟩ else none

/-- The value returned and the pool. -/
def addTaskToThreadPool (pool : ThreadPool φ α) (function : φ) (argument : α) :
    Call (Int × ThreadPool φ α) :=
  if pool.queueSize = maxQueue then .done (-1, pool)
  else
    match queueSlot pool.queueRear with
    | none => .undefined
    | some slot => .done
        (0, { pool with
          taskQueue := Function.update pool.taskQueue slot (some { function, argument })
          queueRear := (pool.queueRear + 1).tmod maxQueue
          queueSize := pool.queueSize + 1 })

/-- What a worker does when it has looked at the queue. -/
inductive WorkerTurn (φ α : Type)
  | wait
  | exit
  | execute (task : ThreadPoolTask φ α)

/-- The section of `threadWorker` from taking the lock to waiting or giving it up. -/
def threadWorkerTurn (pool : ThreadPool φ α) : Call (WorkerTurn φ α × ThreadPool φ α) :=
  if pool.queueSize = 0 ∧ pool.stop = 0 then .done (.wait, pool)
  else if pool.stop ≠ 0 then .done (.exit, pool)
  else
    match (queueSlot pool.queueFront).bind pool.taskQueue with
    | none => .undefined
    | some task => .done
        (.execute task, { pool with
          queueFront := (pool.queueFront + 1).tmod maxQueue
          queueSize := pool.queueSize - 1 })

/-- The section of `destroyThreadPool` that stops the workers. -/
def destroyThreadPoolStop (pool : ThreadPool φ α) : ThreadPool φ α := { pool with stop := 1 }

/-! ### The pool and its workers -/

inductive WorkerState (φ α : Type)
  /-- About to take the lock and look at the queue. -/
  | awake
  | executing (task : ThreadPoolTask φ α)
  /-- In `pthread_cond_wait`. -/
  | asleep
  | exited

structure PoolState (φ α : Type) (n : Nat) where
  pool : ThreadPool φ α
  workers : Fin n → WorkerState φ α

/-- What a step did. -/
inductive PoolEvent (φ α : Type) (n : Nat)
  | added (task : ThreadPoolTask φ α)
  | refused (task : ThreadPoolTask φ α)
  | fetched (i : Fin n) (task : ThreadPoolTask φ α)
  | slept (i : Fin n)
  | exited (i : Fin n)
  | finished (i : Fin n) (task : ThreadPoolTask φ α)
  | woke (i : Fin n)
  | stopped

/-- `pthread_cond_signal`: one sleeper wakes, if there is one. -/
inductive Signals (workers : Fin n → WorkerState φ α) : (Fin n → WorkerState φ α) → Prop
  | one (i : Fin n) (h : workers i = .asleep) : Signals workers (Function.update workers i .awake)
  | nobody (h : ∀ i, workers i ≠ .asleep) : Signals workers workers

/-- `pthread_cond_broadcast`: every sleeper wakes. -/
def broadcast (workers : Fin n → WorkerState φ α) : Fin n → WorkerState φ α :=
  fun i => match workers i with
    | .asleep => .awake
    | state => state

/-- One step of the pool: a critical section, the end of a task, or a wake-up. -/
inductive PoolStep : PoolState φ α n → PoolEvent φ α n → PoolState φ α n → Prop
  | added {s : PoolState φ α n} {task : ThreadPoolTask φ α} {pool : ThreadPool φ α}
      {workers : Fin n → WorkerState φ α}
      (hadd : addTaskToThreadPool s.pool task.function task.argument = .done (0, pool))
      (hsignal : Signals s.workers workers) : PoolStep s (.added task) { pool, workers }
  | refused {s : PoolState φ α n} {task : ThreadPoolTask φ α} {pool : ThreadPool φ α}
      (hadd : addTaskToThreadPool s.pool task.function task.argument = .done (-1, pool)) :
      PoolStep s (.refused task) { s with pool }
  | fetched {s : PoolState φ α n} {i : Fin n} {task : ThreadPoolTask φ α} {pool : ThreadPool φ α}
      (hawake : s.workers i = .awake)
      (hturn : threadWorkerTurn s.pool = .done (.execute task, pool)) :
      PoolStep s (.fetched i task)
        { pool, workers := Function.update s.workers i (.executing task) }
  | slept {s : PoolState φ α n} {i : Fin n} {pool : ThreadPool φ α}
      (hawake : s.workers i = .awake) (hturn : threadWorkerTurn s.pool = .done (.wait, pool)) :
      PoolStep s (.slept i) { pool, workers := Function.update s.workers i .asleep }
  | exited {s : PoolState φ α n} {i : Fin n} {pool : ThreadPool φ α}
      (hawake : s.workers i = .awake) (hturn : threadWorkerTurn s.pool = .done (.exit, pool)) :
      PoolStep s (.exited i) { pool, workers := Function.update s.workers i .exited }
  | finished {s : PoolState φ α n} {i : Fin n} {task : ThreadPoolTask φ α}
      (hbusy : s.workers i = .executing task) :
      PoolStep s (.finished i task) { s with workers := Function.update s.workers i .awake }
  | woke {s : PoolState φ α n} {i : Fin n} (hasleep : s.workers i = .asleep) :
      PoolStep s (.woke i) { s with workers := Function.update s.workers i .awake }
  | stopped {s : PoolState φ α n} :
      PoolStep s .stopped { pool := destroyThreadPoolStop s.pool, workers := broadcast s.workers }

/-- Just made, every worker about to look at the queue for the first time. -/
structure PoolStart (s : PoolState φ α n) : Prop where
  size : s.pool.queueSize = 0
  front : s.pool.queueFront = 0
  rear : s.pool.queueRear = 0
  stop : s.pool.stop = 0
  workers : ∀ i, s.workers i = .awake

/-! ### Shutting down -/

/-- Where the call of `destroyThreadPool` is. -/
inductive Destroyer
  | notCalled
  /-- In its loop, about to join entry `i`; past the last entry it frees the pool. -/
  | joining (i : Nat)
  deriving DecidableEq

/-- `joined` is what the join loop has read from `threads`; a thread is the number of the
worker it runs. -/
structure ShutdownState (φ α : Type) (n : Nat) where
  state : PoolState φ α n
  destroyer : Destroyer
  joined : List (Option Nat)

inductive ShutdownEvent (φ α : Type) (n : Nat)
  | pool (event : PoolEvent φ α n)
  | joined (thread : Option Nat)

inductive ShutdownStep :
    ShutdownState φ α n → ShutdownEvent φ α n → ShutdownState φ α n → Prop
  /-- Anything the acceptor and the workers do while the pool is there. -/
  | pool {s : ShutdownState φ α n} {event : PoolEvent φ α n} {state : PoolState φ α n}
      (hthere : s.destroyer ≠ .joining maxThreads) (hevent : event ≠ .stopped)
      (hstep : PoolStep s.state event state) : ShutdownStep s (.pool event) { s with state }
  | stop {s : ShutdownState φ α n} {state : PoolState φ α n} (hcall : s.destroyer = .notCalled)
      (hstep : PoolStep s.state .stopped state) :
      ShutdownStep s (.pool .stopped) { s with state, destroyer := .joining 0 }
  /-- `pthread_join` returns once the thread has exited. -/
  | join {s : ShutdownState φ α n} {i : Fin maxThreads} {worker : Fin n}
      (hat : s.destroyer = .joining i) (hthread : s.state.pool.threads i = some worker.val)
      (hexited : s.state.workers worker = .exited) :
      ShutdownStep s (.joined (some worker.val))
        { s with destroyer := .joining (i + 1), joined := s.joined ++ [some worker.val] }
  /-- The entry was never written, so it is no thread of the pool. -/
  | joinUnwritten {s : ShutdownState φ α n} {i : Fin maxThreads}
      (hat : s.destroyer = .joining i) (hthread : s.state.pool.threads i = none) :
      ShutdownStep s (.joined none)
        { s with destroyer := .joining (i + 1), joined := s.joined ++ [none] }

/-- Just made by `initThreadPool`. -/
structure ShutdownStart (s : ShutdownState φ α n) : Prop where
  pool : initThreadPool n = .done s.state.pool
  workers : ∀ i, s.state.workers i = .awake
  destroyer : s.destroyer = .notCalled
  joined : s.joined = []

end DnsServer
