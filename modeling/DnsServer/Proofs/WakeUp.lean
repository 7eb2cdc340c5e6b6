/-
No wake-up is lost.

A worker sleeps only on an empty queue, and a task added wakes a sleeper if there
is one.  So while anybody sleeps there are at least as many workers about to look
at the queue as there are tasks in it: whoever a signal woke may find its task
gone, but then the one who took it was counted too.  Once the pool is stopped
nobody sleeps, and nobody goes to sleep again.
-/
import DnsServer.Proofs.TaskQueue
import Mathlib.Data.Fintype.Card

namespace DnsServer

open Call Runs

variable {φ α : Type} {n : Nat}

/-- The worker is about to look at the queue. -/
def WorkerState.isAwake : WorkerState φ α → Bool
  | awake => true
  | _ => false

/-- The workers about to look at the queue. -/
def awakeWorkers (workers : Fin n → WorkerState φ α) : Finset (Fin n) :=
  Finset.univ.filter fun i => (workers i).isAwake = true

/-! ### Counting -/

theorem mem_awakeWorkers {workers : Fin n → WorkerState φ α} {i : Fin n} :
    i ∈ awakeWorkers workers ↔ (workers i).isAwake = true := by
  simp [awakeWorkers]

/-- A worker that was not awake and now is makes one more. -/
theorem card_wake {workers : Fin n → WorkerState φ α} {i : Fin n}
    (h : (workers i).isAwake = false) :
    (awakeWorkers (Function.update workers i .awake)).card = (awakeWorkers workers).card + 1 := by
  have hnot : i ∉ awakeWorkers workers := by simp [mem_awakeWorkers, h]
  have hset : awakeWorkers (Function.update workers i .awake)
      = insert i (awakeWorkers workers) := by
    ext j
    rw [mem_awakeWorkers, Finset.mem_insert, mem_awakeWorkers]
    by_cases hj : j = i
    · subst hj
      simp [WorkerState.isAwake]
    · simp [hj]
  rw [hset, Finset.card_insert_of_notMem hnot]

/-- A worker that was awake and no longer is makes one less. -/
theorem card_leave {workers : Fin n → WorkerState φ α} {i : Fin n} {state : WorkerState φ α}
    (h : (workers i).isAwake = true) (hstate : state.isAwake = false) :
    (awakeWorkers (Function.update workers i state)).card + 1 = (awakeWorkers workers).card := by
  have hmem : i ∈ awakeWorkers workers := mem_awakeWorkers.mpr h
  have hset : awakeWorkers (Function.update workers i state) = (awakeWorkers workers).erase i := by
    ext j
    rw [mem_awakeWorkers, Finset.mem_erase, mem_awakeWorkers]
    by_cases hj : j = i
    · subst hj
      simp [hstate]
    · simp [hj]
  rw [hset, Finset.card_erase_add_one hmem]

/-! ### The invariant -/

/-- While somebody sleeps, every queued task has a worker awake for it; when the pool is
stopped nobody sleeps. -/
structure WakeInv (s : PoolState φ α n) : Prop where
  running : s.pool.stop = 0 → ∀ i, s.workers i = .asleep →
    s.pool.queueSize ≤ (awakeWorkers s.workers).card
  stopped : s.pool.stop ≠ 0 → ∀ i, s.workers i ≠ .asleep

variable {s s' : PoolState φ α n} {event : PoolEvent φ α n}

theorem wakeInv_start (h : PoolStart s) : WakeInv s := by
  refine ⟨?_, fun hstop => absurd h.stop hstop⟩
  intro _ i hi
  rw [h.workers i] at hi
  simp at hi

/-- Making one worker leave a state that is not sleep, for one that is not, puts nobody to
sleep. -/
theorem asleep_of_update {workers : Fin n → WorkerState φ α} {i j : Fin n}
    {state : WorkerState φ α} (hstate : state ≠ .asleep)
    (h : Function.update workers i state j = .asleep) : workers j = .asleep := by
  by_cases hj : j = i
  · subst hj
    rw [Function.update_self] at h
    exact absurd h hstate
  · rwa [Function.update_of_ne hj] at h

theorem wakeInv_added {task : ThreadPoolTask φ α} {pool : ThreadPool φ α}
    {workers : Fin n → WorkerState φ α} (h : WakeInv s)
    (hadd : addTaskToThreadPool s.pool task.function task.argument = done (0, pool))
    (hsignal : Signals s.workers workers) : WakeInv { pool, workers } := by
  obtain ⟨hsize, hstop⟩ := addTask_accepted hadd
  rcases hsignal with ⟨i, hi⟩ | hnobody
  · refine ⟨?_, ?_⟩
    · intro hzero j _
      -- one task more, and one worker more awake for it
      have hbefore := h.running (by rw [← hstop]; exact hzero) i hi
      have hcard : (awakeWorkers (Function.update s.workers i .awake)).card = _ :=
        card_wake (by rw [hi]; rfl)
      show pool.queueSize ≤ _
      rw [hsize, hcard]
      push_cast
      omega
    · intro hne j hj
      exact h.stopped (by rw [← hstop]; exact hne) j (asleep_of_update (by simp) hj)
  · exact ⟨fun _ j hj => absurd hj (hnobody j), fun _ => hnobody⟩

theorem wakeInv_fetched {i : Fin n} {task : ThreadPoolTask φ α} {pool : ThreadPool φ α}
    (h : WakeInv s) (hawake : s.workers i = .awake)
    (hturn : threadWorkerTurn s.pool = done (.execute task, pool)) :
    WakeInv { pool, workers := Function.update s.workers i (.executing task) } := by
  obtain ⟨hzero, -, hsize, hstop⟩ := threadWorkerTurn_fetch hturn
  refine ⟨?_, fun hne => absurd (hstop.trans hzero) hne⟩
  intro _ j hj
  -- the task taken and the worker that took it leave together
  have hbefore := h.running hzero j (asleep_of_update (by simp) hj)
  have hcard : (awakeWorkers (Function.update s.workers i (.executing task))).card + 1 = _ :=
    card_leave (by rw [hawake]; rfl) rfl
  show pool.queueSize ≤ (awakeWorkers (Function.update s.workers i (.executing task))).card
  rw [hsize]
  omega

theorem wakeInv_slept {i : Fin n} {pool : ThreadPool φ α}
    (hturn : threadWorkerTurn s.pool = done (.wait, pool)) :
    WakeInv { pool, workers := Function.update s.workers i .asleep } := by
  obtain ⟨hsize, hzero, rfl⟩ := threadWorkerTurn_wait hturn
  refine ⟨?_, fun hne => absurd hzero hne⟩
  intro _ j _
  show s.pool.queueSize ≤ _
  rw [hsize]
  omega

/-- A worker that wakes, or ends its task, only adds to those awake. -/
theorem wakeInv_wake {i : Fin n} (h : WakeInv s) (hi : (s.workers i).isAwake = false) :
    WakeInv { s with workers := Function.update s.workers i .awake } := by
  refine ⟨?_, ?_⟩
  · intro hzero j hj
    have hbefore := h.running hzero j (asleep_of_update (by simp) hj)
    show s.pool.queueSize ≤ _
    rw [card_wake hi]
    push_cast
    omega
  · intro hne j hj
    exact h.stopped hne j (asleep_of_update (by simp) hj)

theorem wakeInv_step (h : WakeInv s) (hstep : PoolStep s event s') : WakeInv s' := by
  rcases hstep with ⟨hadd, hsignal⟩ | hadd | ⟨hawake, hturn⟩ | ⟨-, hturn⟩ | ⟨hawake, hturn⟩ |
    hbusy | hasleep | -
  · exact wakeInv_added h hadd hsignal
  · rw [addTask_refused hadd]
    exact h
  · exact wakeInv_fetched h hawake hturn
  · exact wakeInv_slept hturn
  · obtain ⟨hne, rfl⟩ := threadWorkerTurn_exit hturn
    exact ⟨fun hzero => absurd hzero hne,
      fun _ j hj => h.stopped hne j (asleep_of_update (by simp) hj)⟩
  · exact wakeInv_wake h (by rw [hbusy]; rfl)
  · exact wakeInv_wake h (by rw [hasleep]; rfl)
  · refine ⟨fun hzero => absurd (show (1 : Int) = 0 from hzero) (by decide), ?_⟩
    intro _ j hj
    unfold broadcast at hj
    rcases hw : s.workers j with _ | task | _ | _ <;> simp [hw] at hj

/--
**No wake-up is lost.**  In every state reached with the pool running, if some
worker sleeps the queue is no longer than the workers about to look at it are
many; in every state reached with the pool stopped no worker sleeps.
-/
theorem no_lost_wakeup (s : PoolState φ α n) (h : Reachable PoolStart PoolStep s) :
    (s.pool.stop = 0 → (∃ i, s.workers i = .asleep) →
      s.pool.queueSize ≤ (awakeWorkers s.workers).card) ∧
    (s.pool.stop = 1 → ∀ i, s.workers i ≠ .asleep) := by
  have hinv : WakeInv s := by
    refine Reachable.inv ?_ ?_ h
    · intro t ht
      exact wakeInv_start ht
    · intro t event t' ht hstep
      exact wakeInv_step ht hstep
  refine ⟨?_, fun hone => hinv.stopped (by rw [hone]; decide)⟩
  intro hzero hsome
  obtain ⟨i, hi⟩ := hsome
  exact hinv.running hzero i hi

/-- Two workers have gone to sleep and a task wakes one of them; then the pool is stopped. -/
theorem no_lost_wakeup_signalled :
    ∃ s s' : PoolState Nat Nat 2, Reachable PoolStart PoolStep s ∧ s.workers 1 = .asleep ∧
      s.pool.queueSize = 1 ∧ s.pool.queueSize ≤ (awakeWorkers s.workers).card ∧
      PoolStep s .stopped s' ∧ ∀ i, s'.workers i ≠ .asleep := by
  obtain ⟨pool, hpool, pool', hturn, hadd, hsize, hrunning⟩ :
      ∃ pool, (initThreadPool 2 : Call (ThreadPool Nat Nat)) = done pool ∧
        ∃ pool', threadWorkerTurn pool = done (.wait, pool) ∧
          addTaskToThreadPool pool 1 2 = done (0, pool') ∧ pool'.queueSize = 1 ∧
          pool'.stop = 0 := ⟨_, rfl, _, rfl, rfl, rfl, rfl⟩
  have hone := (Reachable.start (poolStart_of_init hpool)).next
    (@PoolStep.slept _ _ _ _ 0 _ rfl hturn)
  have hboth := hone.next (@PoolStep.slept _ _ _ _ 1 _ rfl hturn)
  have hadded := hboth.next (@PoolStep.added _ _ _ _ ⟨1, 2⟩ _ _ hadd (Signals.one 0 rfl))
  have hstopped := hadded.next PoolStep.stopped
  exact ⟨_, _, hadded, rfl, hsize, (no_lost_wakeup _ hadded).1 hrunning ⟨1, rfl⟩,
    PoolStep.stopped, (no_lost_wakeup _ hstopped).2 rfl⟩

end DnsServer
