/-
The task queue is a bounded queue.

`QueueAt` says which queue a pool holds, read from its ring of slots; an addition
puts a task at its end, or is refused when it is full, and a worker takes one from
its start.  Along any run the tasks fetched, followed by the queue, are the tasks
accepted, in order.
-/
import DnsServer.Code.Thread
import DnsServer.Lib.RingBuffer
import DnsServer.Lib.Runs

namespace DnsServer

open Call Runs

variable {φ α : Type} {n : Nat}

instance : NeZero maxQueue := ⟨by decide⟩

/-- The pool holds a queue, whose first task is at `front`. -/
structure QueueAt (pool : ThreadPool φ α) (front : Nat) (queue : List (ThreadPoolTask φ α)) :
    Prop where
  short : queue.length ≤ maxQueue
  size : pool.queueSize = queue.length
  frontEq : pool.queueFront = front
  frontLt : front < maxQueue
  rear : pool.queueRear = ((front + queue.length) % maxQueue : Nat)
  slots : RingBuffer.queued pool.taskQueue front queue.length = queue.map some

/-! ### Indices -/

theorem queueSlot_natCast {i : Nat} (hi : i < maxQueue) :
    queueSlot i = some (RingBuffer.slot maxQueue i) := by
  unfold queueSlot
  rw [dif_pos ⟨by omega, by omega⟩]
  congr 1
  refine Fin.ext ?_
  show (i : Int).toNat = i % maxQueue
  rw [Int.toNat_natCast, Nat.mod_eq_of_lt hi]

theorem next_index (i : Nat) : ((i : Int) + 1).tmod maxQueue = ((i + 1) % maxQueue : Nat) := by
  rw [Int.tmod_eq_emod_of_nonneg (by omega)]
  rfl

/-! ### The two sections that move tasks -/

theorem addTask_full {pool : ThreadPool φ α} {front : Nat} {queue : List (ThreadPoolTask φ α)}
    (h : QueueAt pool front queue) (hfull : queue.length = maxQueue) (function : φ)
    (argument : α) : addTaskToThreadPool pool function argument = done (-1, pool) := by
  unfold addTaskToThreadPool
  rw [if_pos (by rw [h.size, hfull])]

theorem addTask_room {pool : ThreadPool φ α} {front : Nat} {queue : List (ThreadPoolTask φ α)}
    (h : QueueAt pool front queue) (hroom : queue.length < maxQueue) (function : φ)
    (argument : α) :
    ∃ pool', addTaskToThreadPool pool function argument = done (0, pool') ∧
      QueueAt pool' front (queue ++ [⟨function, argument⟩]) ∧ pool'.stop = pool.stop := by
  have hpos : 0 < maxQueue := by decide
  have hslot := queueSlot_natCast (Nat.mod_lt (front + queue.length) hpos)
  have hmod : RingBuffer.slot maxQueue ((front + queue.length) % maxQueue)
      = RingBuffer.slot maxQueue (front + queue.length) :=
    RingBuffer.slot_eq_of_mod (Nat.mod_mod _ _)
  refine ⟨{ pool with
    taskQueue := Function.update pool.taskQueue
      (RingBuffer.slot maxQueue ((front + queue.length) % maxQueue)) (some ⟨function, argument⟩)
    queueRear := (pool.queueRear + 1).tmod maxQueue
    queueSize := pool.queueSize + 1 }, ?_, ⟨?_, ?_, h.frontEq, h.frontLt, ?_, ?_⟩, rfl⟩
  · unfold addTaskToThreadPool
    rw [if_neg (by rw [h.size]; omega)]
    simp only [h.rear, hslot]
  · simp only [List.length_append, List.length_singleton]
    omega
  · simp only [List.length_append, List.length_singleton]
    rw [h.size]
    omega
  · simp only [List.length_append, List.length_singleton]
    rw [h.rear, next_index, Nat.mod_add_mod, Nat.add_assoc]
  · simp only [List.length_append, List.length_singleton, hmod]
    rw [RingBuffer.queued_push _ _ hroom, h.slots, List.map_append, List.map_singleton]

/-- What an addition does: nothing, when it is refused, or one task more. -/
theorem addTask_cases {pool pool' : ThreadPool φ α} {function : φ} {argument : α} {r : Int}
    (h : addTaskToThreadPool pool function argument = done (r, pool')) :
    (r = -1 ∧ pool' = pool) ∨
    (r = 0 ∧ pool'.queueSize = pool.queueSize + 1 ∧ pool'.stop = pool.stop) := by
  unfold addTaskToThreadPool at h
  split at h
  · rw [done.injEq, Prod.mk.injEq] at h
    exact Or.inl ⟨h.1.symm, h.2.symm⟩
  · rcases hslot : queueSlot pool.queueRear with _ | slot
    · simp [hslot] at h
    · simp only [hslot, done.injEq, Prod.mk.injEq] at h
      obtain ⟨rfl, rfl⟩ := h
      exact Or.inr ⟨rfl, rfl, rfl⟩

theorem addTask_refused {pool pool' : ThreadPool φ α} {function : φ} {argument : α}
    (h : addTaskToThreadPool pool function argument = done (-1, pool')) : pool' = pool := by
  rcases addTask_cases h with ⟨-, hpool⟩ | ⟨hr, -⟩
  · exact hpool
  · exact absurd hr (by decide)

theorem addTask_accepted {pool pool' : ThreadPool φ α} {function : φ} {argument : α}
    (h : addTaskToThreadPool pool function argument = done (0, pool')) :
    pool'.queueSize = pool.queueSize + 1 ∧ pool'.stop = pool.stop := by
  rcases addTask_cases h with ⟨hr, -⟩ | ⟨-, hafter⟩
  · exact absurd hr (by decide)
  · exact hafter

theorem threadWorkerTurn_execute {pool : ThreadPool φ α} {front : Nat}
    {task : ThreadPoolTask φ α} {queue : List (ThreadPoolTask φ α)}
    (h : QueueAt pool front (task :: queue)) (hstop : pool.stop = 0) :
    ∃ pool', threadWorkerTurn pool = done (.execute task, pool') ∧
      QueueAt pool' ((front + 1) % maxQueue) queue ∧ pool'.stop = pool.stop := by
  have hpos : 0 < maxQueue := by decide
  have hslots := h.slots
  rw [List.length_cons, RingBuffer.queued_pop, List.map_cons, List.cons.injEq] at hslots
  have hshort := h.short
  rw [List.length_cons] at hshort
  refine ⟨{ pool with
    queueFront := (pool.queueFront + 1).tmod maxQueue
    queueSize := pool.queueSize - 1 }, ?_,
    ⟨by omega, ?_, ?_, Nat.mod_lt _ hpos, ?_, hslots.2⟩, rfl⟩
  · unfold threadWorkerTurn
    rw [if_neg (by rw [h.size, List.length_cons]; omega), if_neg (by rw [hstop]; decide)]
    simp only [h.frontEq, queueSlot_natCast h.frontLt, Option.bind_some, hslots.1]
  · simp only [h.size, List.length_cons]
    omega
  · rw [h.frontEq, next_index]
  · rw [h.rear, List.length_cons, Nat.mod_add_mod, Nat.add_right_comm, Nat.add_assoc]

theorem threadWorkerTurn_cases {pool pool' : ThreadPool φ α} {turn : WorkerTurn φ α}
    (h : threadWorkerTurn pool = done (turn, pool')) :
    (turn = .wait ∧ pool.queueSize = 0 ∧ pool.stop = 0 ∧ pool' = pool) ∨
    (turn = .exit ∧ pool.stop ≠ 0 ∧ pool' = pool) ∨
    (∃ task, turn = .execute task ∧ pool.stop = 0 ∧ pool.queueSize ≠ 0 ∧
      pool'.queueSize = pool.queueSize - 1 ∧ pool'.stop = pool.stop) := by
  unfold threadWorkerTurn at h
  by_cases hwait : pool.queueSize = 0 ∧ pool.stop = 0
  · rw [if_pos hwait, done.injEq, Prod.mk.injEq] at h
    exact Or.inl ⟨h.1.symm, hwait.1, hwait.2, h.2.symm⟩
  rw [if_neg hwait] at h
  by_cases hstop : pool.stop ≠ 0
  · rw [if_pos hstop, done.injEq, Prod.mk.injEq] at h
    exact Or.inr (Or.inl ⟨h.1.symm, hstop, h.2.symm⟩)
  rw [if_neg hstop] at h
  rcases hslot : (queueSlot pool.queueFront).bind pool.taskQueue with _ | task
  · simp [hslot] at h
  · simp only [hslot, done.injEq, Prod.mk.injEq] at h
    obtain ⟨rfl, rfl⟩ := h
    have hzero : pool.stop = 0 := not_not.mp hstop
    exact Or.inr (Or.inr ⟨task, rfl, hzero, fun hsize => hwait ⟨hsize, hzero⟩, rfl, rfl⟩)

theorem threadWorkerTurn_wait {pool pool' : ThreadPool φ α}
    (h : threadWorkerTurn pool = done (.wait, pool')) :
    pool.queueSize = 0 ∧ pool.stop = 0 ∧ pool' = pool := by
  rcases threadWorkerTurn_cases h with ⟨-, hwait⟩ | ⟨hexit, -⟩ | ⟨_, hrun, -⟩
  · exact hwait
  · simp at hexit
  · simp at hrun

theorem threadWorkerTurn_exit {pool pool' : ThreadPool φ α}
    (h : threadWorkerTurn pool = done (.exit, pool')) : pool.stop ≠ 0 ∧ pool' = pool := by
  rcases threadWorkerTurn_cases h with ⟨hwait, -⟩ | ⟨-, hexit⟩ | ⟨_, hrun, -⟩
  · simp at hwait
  · exact hexit
  · simp at hrun

theorem threadWorkerTurn_fetch {pool pool' : ThreadPool φ α} {task : ThreadPoolTask φ α}
    (h : threadWorkerTurn pool = done (.execute task, pool')) :
    pool.stop = 0 ∧ pool.queueSize ≠ 0 ∧ pool'.queueSize = pool.queueSize - 1 ∧
      pool'.stop = pool.stop := by
  rcases threadWorkerTurn_cases h with ⟨hwait, -⟩ | ⟨hexit, -⟩ | ⟨_, -, hfetch⟩
  · simp at hwait
  · simp at hexit
  · exact hfetch

/-! ### Runs -/

/-- The task a step accepted. -/
def PoolEvent.accepted? : PoolEvent φ α n → Option (ThreadPoolTask φ α)
  | added task => some task
  | _ => none

/-- The task a step fetched. -/
def PoolEvent.fetched? : PoolEvent φ α n → Option (ThreadPoolTask φ α)
  | fetched _ task => some task
  | _ => none

/-- The tasks accepted on a run, in order. -/
def acceptedTasks (events : List (PoolEvent φ α n)) : List (ThreadPoolTask φ α) :=
  events.filterMap PoolEvent.accepted?

/-- The tasks fetched on a run, in order. -/
def fetchedTasks (events : List (PoolEvent φ α n)) : List (ThreadPoolTask φ α) :=
  events.filterMap PoolEvent.fetched?

/-- The pool holds the tasks accepted and not yet fetched. -/
def QueueInv (events : List (PoolEvent φ α n)) (s : PoolState φ α n) : Prop :=
  ∃ front queue, QueueAt s.pool front queue ∧ fetchedTasks events ++ queue = acceptedTasks events

theorem queueInv_start {s : PoolState φ α n} (h : PoolStart s) : QueueInv [] s :=
  ⟨0, [], ⟨Nat.zero_le _, h.size, h.front, by decide, h.rear, rfl⟩, rfl⟩

/-- A step that neither accepts nor fetches leaves the queue as it was. -/
theorem QueueInv.other {events : List (PoolEvent φ α n)} {s s' : PoolState φ α n}
    {event : PoolEvent φ α n} (h : QueueInv events s) (haccepted : event.accepted? = none)
    (hfetched : event.fetched? = none) (hpool : ∀ front queue,
      QueueAt s.pool front queue → QueueAt s'.pool front queue) :
    QueueInv (events ++ [event]) s' := by
  obtain ⟨front, queue, hqueue, hfifo⟩ := h
  refine ⟨front, queue, hpool front queue hqueue, ?_⟩
  simp only [fetchedTasks, acceptedTasks, List.filterMap_append, List.filterMap_cons, hfetched,
    haccepted, List.filterMap_nil, List.append_nil]
  exact hfifo

theorem queueInv_added {events : List (PoolEvent φ α n)} {s s' : PoolState φ α n}
    {task : ThreadPoolTask φ α} (h : QueueInv events s)
    (hadd : addTaskToThreadPool s.pool task.function task.argument = done (0, s'.pool)) :
    QueueInv (events ++ [.added task]) s' := by
  obtain ⟨front, queue, hqueue, hfifo⟩ := h
  by_cases hfull : queue.length = maxQueue
  · rw [addTask_full hqueue hfull, done.injEq, Prod.mk.injEq] at hadd
    exact absurd hadd.1 (by decide)
  · have hroom : queue.length < maxQueue := Nat.lt_of_le_of_ne hqueue.short hfull
    obtain ⟨pool', hadd', hqueue', -⟩ := addTask_room hqueue hroom task.function task.argument
    rw [hadd', done.injEq, Prod.mk.injEq] at hadd
    refine ⟨front, queue ++ [task], hadd.2 ▸ hqueue', ?_⟩
    simp only [fetchedTasks, acceptedTasks, List.filterMap_append, List.filterMap_cons,
      PoolEvent.fetched?, PoolEvent.accepted?, List.filterMap_nil, List.append_nil] at hfifo ⊢
    rw [← List.append_assoc, hfifo]

theorem queueInv_fetched {events : List (PoolEvent φ α n)} {s s' : PoolState φ α n}
    {i : Fin n} {task : ThreadPoolTask φ α} (h : QueueInv events s)
    (hturn : threadWorkerTurn s.pool = done (.execute task, s'.pool)) :
    QueueInv (events ++ [.fetched i task]) s' := by
  obtain ⟨front, queue, hqueue, hfifo⟩ := h
  obtain ⟨hstop, hsize, -⟩ := threadWorkerTurn_fetch hturn
  rcases queue with _ | ⟨first, queue⟩
  · exact absurd hqueue.size hsize
  · obtain ⟨pool', hturn', hqueue', -⟩ := threadWorkerTurn_execute hqueue hstop
    rw [hturn', done.injEq, Prod.mk.injEq, WorkerTurn.execute.injEq] at hturn
    obtain ⟨rfl, hpool⟩ := hturn
    refine ⟨_, queue, hpool ▸ hqueue', ?_⟩
    simp only [fetchedTasks, acceptedTasks, List.filterMap_append, List.filterMap_cons,
      PoolEvent.fetched?, PoolEvent.accepted?, List.filterMap_nil, List.append_nil] at hfifo ⊢
    rw [← hfifo, List.append_assoc, List.singleton_append]

theorem queueInv_step {events : List (PoolEvent φ α n)} {s s' : PoolState φ α n}
    {event : PoolEvent φ α n} (h : QueueInv events s) (hstep : PoolStep s event s') :
    QueueInv (events ++ [event]) s' := by
  have same : ∀ {pool : ThreadPool φ α}, pool = s.pool → ∀ front queue,
      QueueAt s.pool front queue → QueueAt pool front queue := by
    intro pool hpool front queue hqueue
    rw [hpool]
    exact hqueue
  rcases hstep with ⟨hadd, -⟩ | hadd | ⟨-, hturn⟩ | ⟨-, hturn⟩ | ⟨-, hturn⟩ | - | - | -
  · exact queueInv_added h hadd
  · exact h.other rfl rfl (same (addTask_refused hadd))
  · exact queueInv_fetched h hturn
  · exact h.other rfl rfl (same (threadWorkerTurn_wait hturn).2.2)
  · exact h.other rfl rfl (same (threadWorkerTurn_exit hturn).2)
  · exact h.other rfl rfl (same rfl)
  · exact h.other rfl rfl (same rfl)
  · exact h.other rfl rfl fun front queue hqueue =>
      ⟨hqueue.short, hqueue.size, hqueue.frontEq, hqueue.frontLt, hqueue.rear, hqueue.slots⟩

theorem queueInv_trace {events : List (PoolEvent φ α n)} {s : PoolState φ α n}
    (h : Trace PoolStart PoolStep events s) : QueueInv events s :=
  Trace.inv (fun _ => queueInv_start) (fun _ _ _ _ hs hstep => queueInv_step hs hstep) h

/-- The queued slots, read from `queue_front`. -/
def queuedSlots (pool : ThreadPool φ α) : List (Option (ThreadPoolTask φ α)) :=
  RingBuffer.queued pool.taskQueue pool.queueFront.toNat pool.queueSize.toNat

/--
**The task queue is a bounded queue.**  On every run the indices stay in their
bounds and agree; the tasks fetched and then the queued slots are the tasks
accepted, in order; and an addition is refused, and changes nothing, exactly when
`MAX_QUEUE` accepted tasks are still unfetched.
-/
theorem taskQueue_fifo (events : List (PoolEvent φ α n)) (s : PoolState φ α n)
    (h : Trace PoolStart PoolStep events s) :
    (0 ≤ s.pool.queueSize ∧ s.pool.queueSize ≤ maxQueue) ∧
    (0 ≤ s.pool.queueFront ∧ s.pool.queueFront < maxQueue) ∧
    (0 ≤ s.pool.queueRear ∧ s.pool.queueRear < maxQueue) ∧
    s.pool.queueRear = (s.pool.queueFront + s.pool.queueSize) % maxQueue ∧
    (fetchedTasks events).map some ++ queuedSlots s.pool = (acceptedTasks events).map some ∧
    ∀ function argument,
      (addTaskToThreadPool s.pool function argument = done (-1, s.pool) ↔
        (acceptedTasks events).length = (fetchedTasks events).length + maxQueue) ∧
      ((acceptedTasks events).length ≠ (fetchedTasks events).length + maxQueue →
        ∃ pool', addTaskToThreadPool s.pool function argument = done (0, pool')) := by
  obtain ⟨front, queue, hqueue, hfifo⟩ := queueInv_trace h
  have hshort := hqueue.short
  have hfront := hqueue.frontLt
  have hlength : (acceptedTasks events).length = (fetchedTasks events).length + queue.length := by
    rw [← hfifo, List.length_append]
  have hmod : (front + queue.length) % maxQueue < maxQueue := Nat.mod_lt _ (by decide)
  refine ⟨⟨?_, ?_⟩, ⟨?_, ?_⟩, ⟨?_, ?_⟩, ?_, ?_, fun function argument => ?_⟩
  · rw [hqueue.size]; omega
  · rw [hqueue.size]; omega
  · rw [hqueue.frontEq]; omega
  · rw [hqueue.frontEq]; omega
  · rw [hqueue.rear]; omega
  · rw [hqueue.rear]; omega
  · rw [hqueue.rear, hqueue.frontEq, hqueue.size]
    rfl
  · have hslots : queuedSlots s.pool = queue.map some := by
      unfold queuedSlots
      rw [hqueue.frontEq, hqueue.size, Int.toNat_natCast, Int.toNat_natCast]
      exact hqueue.slots
    rw [hslots, ← List.map_append, hfifo]
  · by_cases hfull : queue.length = maxQueue
    · exact ⟨⟨fun _ => by omega, fun _ => addTask_full hqueue hfull function argument⟩,
        fun hne => absurd (by omega) hne⟩
    · have hroom : queue.length < maxQueue := Nat.lt_of_le_of_ne hshort hfull
      obtain ⟨pool', hadd, -⟩ := addTask_room hqueue hroom function argument
      refine ⟨⟨fun hrefused => ?_, fun heq => absurd (by omega) hfull⟩, fun _ => ⟨pool', hadd⟩⟩
      rw [hadd, done.injEq, Prod.mk.injEq] at hrefused
      exact absurd hrefused.1 (by decide)

/-! ### A pool of two workers -/

/-- A pool as it is made is a start of a run, with no worker asleep yet. -/
theorem poolStart_of_init {threadCount : Nat} {pool : ThreadPool φ α}
    (h : initThreadPool threadCount = done pool) :
    PoolStart ({ pool, workers := fun _ => .awake } : PoolState φ α threadCount) := by
  unfold initThreadPool at h
  split at h
  · rw [done.injEq] at h
    subst h
    exact ⟨rfl, rfl, rfl, rfl, fun _ => rfl⟩
  · simp at h

/-- Two tasks are accepted, the first is fetched, and a third is accepted while it is executed. -/
theorem taskQueue_fifo_three :
    ∃ events s, Trace (PoolStart (φ := Nat) (α := Nat) (n := 2)) PoolStep events s ∧
      acceptedTasks events = [⟨1, 2⟩, ⟨3, 4⟩, ⟨5, 6⟩] ∧ fetchedTasks events = [⟨1, 2⟩] ∧
      queuedSlots s.pool = [some ⟨3, 4⟩, some ⟨5, 6⟩] := by
  obtain ⟨pool, hpool, pool₁, pool₂, pool₃, pool₄, hfirst, hsecond, hfetch, hthird⟩ :
      ∃ pool, (initThreadPool 2 : Call (ThreadPool Nat Nat)) = done pool ∧
        ∃ pool₁ pool₂ pool₃ pool₄,
          addTaskToThreadPool pool 1 2 = done (0, pool₁) ∧
          addTaskToThreadPool pool₁ 3 4 = done (0, pool₂) ∧
          threadWorkerTurn pool₂ = done (.execute ⟨1, 2⟩, pool₃) ∧
          addTaskToThreadPool pool₃ 5 6 = done (0, pool₄) :=
    ⟨_, rfl, _, _, _, _, rfl, rfl, rfl, rfl⟩
  have hawake : Signals (fun _ : Fin 2 => (WorkerState.awake : WorkerState Nat Nat))
      (fun _ => .awake) := Signals.nobody fun _ => by simp
  have hbusy : ∀ i, Function.update (fun _ : Fin 2 => (WorkerState.awake : WorkerState Nat Nat))
      0 (.executing ⟨1, 2⟩) i ≠ .asleep := by
    intro i
    rw [Function.update_apply]
    split <;> simp
  have htwo := Trace.step (Trace.step (Trace.start (poolStart_of_init hpool))
    (@PoolStep.added _ _ _ _ ⟨1, 2⟩ _ _ hfirst hawake))
    (@PoolStep.added _ _ _ _ ⟨3, 4⟩ _ _ hsecond hawake)
  have htrace := Trace.step (Trace.step htwo (@PoolStep.fetched _ _ _ _ 0 _ _ rfl hfetch))
    (@PoolStep.added _ _ _ _ ⟨5, 6⟩ _ _ hthird (Signals.nobody hbusy))
  exact ⟨_, _, htrace, rfl, rfl, (List.cons.inj (taskQueue_fifo _ _ htrace).2.2.2.2.1).2⟩

end DnsServer
