/-
No connection is lost or crossed.

Beside the state a book is kept of who has each connection, and every step of the server
is a step of the book or leaves it as it is.  The server keeps to it: a connection is
closed exactly if the book says so, the accept loop has the one it accepted last, each
queued task was made for a connection of the queue, and a worker that is executing a task
has its connection until it closes it.

A descriptor that was closed may stand for another connection later.  That crosses
nothing, because a descriptor is used only by whoever has the connection it was given to:
the book has one entry for it, so nobody else can have closed it in between.
-/
import DnsServer.Code.Connections
import DnsServer.Proofs.Cleanup
import DnsServer.Spec.Connections

namespace DnsServer

open Call Runs

variable {n : Nat} {s s' : ServerState n} {book book' : Book n}
  {queue queue' : List (ThreadPoolTask Unit Nat)}

/-! ### The pool -/

/-- A worker goes on executing until it has finished. -/
theorem poolStep_keeps {φ α : Type} {t t' : PoolState φ α n} {event : PoolEvent φ α n}
    (h : PoolStep t event t') {w : Fin n} {task : ThreadPoolTask φ α}
    (hw : t.workers w = .executing task) :
    t'.workers w = .executing task ∨ event = .finished w task := by
  have other : ∀ {j : Fin n} {state : WorkerState φ α}, t.workers j ≠ .executing task →
      Function.update t.workers j state w = .executing task := by
    intro j state hj
    rw [Function.update_of_ne fun heq => hj (by rw [← heq, hw])]
    exact hw
  cases h with
  | added _ hsignal =>
      cases hsignal with
      | one i hi => exact Or.inl (other (by rw [hi]; simp))
      | nobody _ => exact Or.inl hw
  | refused => exact Or.inl hw
  | fetched hawake => exact Or.inl (other (by rw [hawake]; simp))
  | slept hawake => exact Or.inl (other (by rw [hawake]; simp))
  | exited hawake => exact Or.inl (other (by rw [hawake]; simp))
  | @finished i task' hbusy =>
      by_cases hwi : w = i
      · rw [hwi, hbusy, WorkerState.executing.injEq] at hw
        exact Or.inr (by rw [hwi, hw])
      · exact Or.inl (by
          show Function.update t.workers i _ w = _
          rw [Function.update_of_ne hwi, hw])
  | woke hasleep => exact Or.inl (other (by rw [hasleep]; simp))
  | stopped =>
      refine Or.inl ?_
      show broadcast t.workers w = _
      unfold broadcast
      rw [hw]

/-- A step that neither accepts nor fetches a task leaves the queue as it is. -/
theorem poolStep_queue {φ α : Type} {t t' : PoolState φ α n} {event : PoolEvent φ α n}
    (h : PoolStep t event t') {front : Nat} {queue : List (ThreadPoolTask φ α)}
    (hqueue : QueueAt t.pool front queue) (haccepted : event.accepted? = none)
    (hfetched : event.fetched? = none) : QueueAt t'.pool front queue := by
  rcases h with - | hadd | - | ⟨-, hturn⟩ | ⟨-, hturn⟩ | - | - | -
  · simp [PoolEvent.accepted?] at haccepted
  · rw [addTask_refused hadd]
    exact hqueue
  · simp [PoolEvent.fetched?] at hfetched
  · rw [(threadWorkerTurn_wait hturn).2.2]
    exact hqueue
  · rw [(threadWorkerTurn_exit hturn).2]
    exact hqueue
  · exact hqueue
  · exact hqueue
  · exact ⟨hqueue.short, hqueue.size, hqueue.frontEq, hqueue.frontLt, hqueue.rear, hqueue.slots⟩

theorem queueAt_added {φ α : Type} {pool pool' : ThreadPool φ α} {front : Nat}
    {queue : List (ThreadPoolTask φ α)} {task : ThreadPoolTask φ α} (h : QueueAt pool front queue)
    (hadd : addTaskToThreadPool pool task.function task.argument = done (0, pool')) :
    QueueAt pool' front (queue ++ [task]) := by
  by_cases hfull : queue.length = maxQueue
  · rw [addTask_full h hfull, done.injEq, Prod.mk.injEq] at hadd
    exact absurd hadd.1 (by decide)
  · obtain ⟨pool₁, hadd', hqueue, -⟩ :=
      addTask_room h (Nat.lt_of_le_of_ne h.short hfull) task.function task.argument
    rw [hadd', done.injEq, Prod.mk.injEq] at hadd
    rw [← hadd.2]
    exact hqueue

theorem queueAt_fetched {φ α : Type} {pool pool' : ThreadPool φ α} {front : Nat}
    {queue : List (ThreadPoolTask φ α)} {task : ThreadPoolTask φ α} (h : QueueAt pool front queue)
    (hturn : threadWorkerTurn pool = done (.execute task, pool')) :
    ∃ rest, queue = task :: rest ∧ QueueAt pool' ((front + 1) % maxQueue) rest := by
  obtain ⟨hstop, hsize, -⟩ := threadWorkerTurn_fetch hturn
  rcases queue with _ | ⟨first, rest⟩
  · exact absurd h.size hsize
  · obtain ⟨pool₁, hturn', hqueue, -⟩ := threadWorkerTurn_execute h hstop
    rw [hturn', done.injEq, Prod.mk.injEq, WorkerTurn.execute.injEq] at hturn
    obtain ⟨rfl, rfl⟩ := hturn
    exact ⟨rest, rfl, hqueue⟩

theorem shutdownStep_queue {φ α : Type} {t t' : ShutdownState φ α n} {event : ShutdownEvent φ α n}
    (h : ShutdownStep t event t') {queue : List (ThreadPoolTask φ α)}
    (hqueue : ∃ front, QueueAt t.state.pool front queue)
    (hother : ∀ e, event = .pool e → e.accepted? = none ∧ e.fetched? = none) :
    ∃ front, QueueAt t'.state.pool front queue := by
  obtain ⟨front, hqueue⟩ := hqueue
  cases h with
  | pool _ _ hstep =>
      exact ⟨front, poolStep_queue hstep hqueue (hother _ rfl).1 (hother _ rfl).2⟩
  | stop _ hstep => exact ⟨front, poolStep_queue hstep hqueue rfl rfl⟩
  | join => exact ⟨front, hqueue⟩
  | joinUnwritten => exact ⟨front, hqueue⟩

/-- Who is executing which task changes only where a task is fetched or finished. -/
theorem shutdownStep_executing_iff {φ α : Type} {t t' : ShutdownState φ α n}
    {event : ShutdownEvent φ α n} (h : ShutdownStep t event t') {w : Fin n}
    {task : ThreadPoolTask φ α} (hfetched : event ≠ .pool (.fetched w task))
    (hfinished : event ≠ .pool (.finished w task)) :
    t'.state.workers w = .executing task ↔ t.state.workers w = .executing task := by
  refine ⟨fun hw => ?_, fun hw => ?_⟩
  · exact (shutdownStep_executing h hw).resolve_right hfetched
  · cases h with
    | pool _ _ hstep =>
        refine (poolStep_keeps hstep hw).resolve_right fun heq => hfinished (by rw [heq])
    | stop _ hstep =>
        refine (poolStep_keeps hstep hw).resolve_right fun heq => by cases heq
    | join => exact hw
    | joinUnwritten => exact hw

/-! ### The book -/

/-- Where one entry changes, the connections somebody else has stay the same. -/
theorem update_book_iff {c : Nat} {new holder : Holder n} (hnew : new ≠ holder)
    (hold : book c ≠ some holder) (c' : Nat) :
    Function.update book c (some new) c' = some holder ↔ book c' = some holder := by
  by_cases hc : c' = c
  · rw [hc, Function.update_self, Option.some.injEq]
    exact ⟨fun h => absurd h hnew, fun h => absurd h hold⟩
  · rw [Function.update_of_ne hc]

/-- Where one entry changes, whoever did not have it has what it had. -/
theorem update_book_keeps {c c' : Nat} {new holder : Holder n} (hold : book c ≠ some holder)
    (h : book c' = some holder) : Function.update book c (some new) c' = some holder := by
  by_cases hc : c' = c
  · rw [hc] at h
    exact absurd h hold
  · rw [Function.update_of_ne hc]
    exact h

/-! ### What the server keeps to -/

/-- The book has the connections that were accepted, and knows those that are closed. -/
structure SocketsKept (d : DescriptorTable) (book : Book n) : Prop where
  accepted : ∀ c, book c = none ↔ d.given.length ≤ c
  closed : ∀ c, book c = some .closed ↔ c ∈ d.closed
  missed : d.missed = []

/-- The accept loop has the connection it accepted last as long as it has a `new_socket`. -/
structure AcceptorKept (s : ServerState n) (book : Book n) : Prop where
  main : ∀ c, book c = some .main ↔ c = s.latest ∧ s.acceptor.newSocket ≠ none
  socket : ∀ fd, s.acceptor.newSocket = some fd → s.descriptors.given[s.latest]? = some fd
  task : ∀ task, s.acceptor.task = some task → book (s.madeFor task)
    = some (if s.acceptor.newSocket = none then .closed else .main)

/-- The queue has the connections its tasks were made for. -/
structure QueueKept (s : ServerState n) (book : Book n)
    (queue : List (ThreadPoolTask Unit Nat)) : Prop where
  queueAt : ∃ front, QueueAt s.cleanup.pool.state.pool front queue
  queued : ∀ t ∈ queue, book (s.madeFor t.argument) = some .queue
  all : ∀ c, book c = some .queue → ∃ t ∈ queue, s.madeFor t.argument = c
  once : (queue.map fun t => s.madeFor t.argument).Nodup

/-- A worker has the connection of the task it is executing until it closes it. -/
structure WorkersKept (s : ServerState n) (book : Book n) : Prop where
  below : ∀ w task, s.Executes w task → task < s.tasks.fresh
  untaken : ∀ w task, s.Executes w task → s.client w = none → s.cleanup.point w = .handling
  taken : ∀ w task fd, s.Executes w task → s.client w = some fd →
    s.descriptors.given[s.madeFor task]? = some fd
  has : ∀ w task, s.Executes w task → book (s.madeFor task)
    = some (if (s.cleanup.point w).hasClosed then .closed else .worker w)
  all : ∀ w c, book c = some (.worker w) → ∃ task, s.Executes w task ∧ s.madeFor task = c

/-- Somebody is still to read the task or to free it. -/
def ServerState.Pending (s : ServerState n) (queue : List (ThreadPoolTask Unit Nat))
    (task : Nat) : Prop :=
  s.acceptor.task = some task ∨ (∃ t ∈ queue, t.argument = task) ∨
    ∃ w, s.Executes w task ∧ s.client w = none

/-- The tasks on the heap are those, each with the descriptor of its connection. -/
structure TasksKept (s : ServerState n) (queue : List (ThreadPoolTask Unit Nat)) : Prop where
  made : ∀ task ∈ s.tasks.live,
    s.descriptors.given[s.madeFor task]? = some (s.tasks.contents task).clientSocket
  pending : ∀ task, task ∈ s.tasks.live ↔ s.Pending queue task

structure Keeps (s : ServerState n) (book : Book n)
    (queue : List (ThreadPoolTask Unit Nat)) : Prop where
  sockets : SocketsKept s.descriptors book
  acceptor : AcceptorKept s book
  queued : QueueKept s book queue
  workers : WorkersKept s book
  tasks : TasksKept s queue

/-- The step is one of the book's or leaves it as it is, and the server keeps to it. -/
def FollowsBook (book : Book n) (s' : ServerState n) : Prop :=
  ∃ book' queue, BookMove book book' ∧ Keeps s' book' queue

/-! ### What a step leaves alone -/

theorem AcceptorKept.frame (h : AcceptorKept s book)
    (hgiven : s'.descriptors.given = s.descriptors.given)
    (hacceptor : s'.acceptor.newSocket = s.acceptor.newSocket ∧ s'.acceptor.task = s.acceptor.task)
    (hmade : s'.madeFor = s.madeFor) (hmain : ∀ c, book' c = some .main ↔ book c = some .main)
    (hclosed : ∀ c, book c = some .closed → book' c = some .closed) : AcceptorKept s' book' := by
  have hlatest : s'.latest = s.latest := by
    unfold ServerState.latest
    rw [hgiven]
  refine ⟨fun c => ?_, fun fd hfd => ?_, fun task htask => ?_⟩
  · rw [hmain, hlatest, hacceptor.1]
    exact h.main c
  · rw [hgiven, hlatest]
    exact h.socket fd (hacceptor.1 ▸ hfd)
  · have hold := h.task task (hacceptor.2 ▸ htask)
    rw [hmade, hacceptor.1]
    by_cases hsocket : s.acceptor.newSocket = none
    · rw [if_pos hsocket] at hold ⊢
      exact hclosed _ hold
    · rw [if_neg hsocket] at hold ⊢
      exact (hmain _).mpr hold

theorem QueueKept.frame (h : QueueKept s book queue)
    (hpool : ∃ front, QueueAt s'.cleanup.pool.state.pool front queue)
    (hmade : ∀ t ∈ queue, s'.madeFor t.argument = s.madeFor t.argument)
    (hbook : ∀ c, book' c = some .queue ↔ book c = some .queue) : QueueKept s' book' queue := by
  refine ⟨hpool, fun t ht => ?_, fun c hc => ?_, ?_⟩
  · rw [hbook, hmade t ht]
    exact h.queued t ht
  · obtain ⟨t, ht, hmadeFor⟩ := h.all c ((hbook c).mp hc)
    exact ⟨t, ht, by rw [hmade t ht, hmadeFor]⟩
  · rw [List.map_congr_left hmade]
    exact h.once

theorem WorkersKept.frame (h : WorkersKept s book)
    (hexecutes : ∀ w task, s'.Executes w task ↔ s.Executes w task)
    (hclient : s'.client = s.client) (hpoint : s'.cleanup.point = s.cleanup.point)
    (hfresh : s.tasks.fresh ≤ s'.tasks.fresh)
    (hgiven : ∀ c fd : Nat, s.descriptors.given[c]? = some fd → s'.descriptors.given[c]? = some fd)
    (hmade : ∀ task < s.tasks.fresh, s'.madeFor task = s.madeFor task)
    (hbook : ∀ w c, book' c = some (.worker w) ↔ book c = some (.worker w))
    (hclosed : ∀ c, book c = some .closed → book' c = some .closed) : WorkersKept s' book' := by
  refine ⟨fun w task hw => ?_, fun w task hw hnew => ?_, fun w task fd hw hfd => ?_,
    fun w task hw => ?_, fun w c hc => ?_⟩
  · exact Nat.lt_of_lt_of_le (h.below w task ((hexecutes w task).mp hw)) hfresh
  · rw [hpoint]
    exact h.untaken w task ((hexecutes w task).mp hw) (hclient ▸ hnew)
  · have hold := (hexecutes w task).mp hw
    rw [hmade task (h.below w task hold)]
    exact hgiven _ _ (h.taken w task fd hold (hclient ▸ hfd))
  · have hold := (hexecutes w task).mp hw
    have hhas := h.has w task hold
    rw [hmade task (h.below w task hold), hpoint]
    split at hhas
    · rw [if_pos ‹_›]
      exact hclosed _ hhas
    · rw [if_neg ‹_›]
      exact (hbook w _).mpr hhas
  · obtain ⟨task, hw, hmadeFor⟩ := h.all w c ((hbook w c).mp hc)
    exact ⟨task, (hexecutes w task).mpr hw, by rw [hmade task (h.below w task hw), hmadeFor]⟩

theorem TasksKept.frame (h : TasksKept s queue) (htasks : s'.tasks = s.tasks)
    (hgiven : ∀ c fd : Nat, s.descriptors.given[c]? = some fd → s'.descriptors.given[c]? = some fd)
    (hmade : s'.madeFor = s.madeFor)
    (hpending : ∀ task, s'.Pending queue' task ↔ s.Pending queue task) : TasksKept s' queue' := by
  refine ⟨fun task htask => ?_, fun task => ?_⟩
  · rw [htasks] at htask ⊢
    rw [hmade]
    exact hgiven _ _ (h.made task htask)
  · rw [htasks, hpending]
    exact h.pending task

/-- The accept loop goes on with what it has. -/
theorem Keeps.goTo (h : Keeps s book queue) {acceptor : Acceptor}
    (hsocket : acceptor.newSocket = s.acceptor.newSocket)
    (htask : acceptor.task = s.acceptor.task) : Keeps (s.goTo acceptor) book queue := by
  refine ⟨h.sockets, ?_, ?_, ?_, ?_⟩
  · exact h.acceptor.frame rfl ⟨hsocket, htask⟩ rfl (fun _ => Iff.rfl) (fun _ => id)
  · exact h.queued.frame h.queued.queueAt (fun _ _ => rfl) (fun _ => Iff.rfl)
  · exact h.workers.frame (fun _ _ => Iff.rfl) rfl rfl (Nat.le_refl _) (fun _ _ => id)
      (fun _ _ => rfl) (fun _ _ => Iff.rfl) (fun _ => id)
  · refine h.tasks.frame rfl (fun _ _ => id) rfl fun task => ?_
    unfold ServerState.Pending
    rw [show (s.goTo acceptor).acceptor.task = s.acceptor.task from htask]
    rfl

/-! ### Accepting and closing -/

/-- Whoever has a connection has its descriptor, and may close it. -/
theorem SocketsKept.close {d : DescriptorTable} (h : SocketsKept d book) {c fd : Nat}
    {holder : Holder n} (hgiven : d.given[c]? = some fd) (hbook : book c = some holder)
    (hopen : holder ≠ .closed) :
    d.table fd = some c ∧ SocketsKept (d.close fd) (Function.update book c (some .closed)) := by
  have hnot : c ∉ d.closed := by
    rw [← h.closed, hbook, Option.some.injEq]
    exact hopen
  have hstands : d.table fd = some c := (d.stands fd c).mpr ⟨hgiven, hnot⟩
  refine ⟨hstands, ?_⟩
  rw [DescriptorTable.close_eq hstands]
  refine ⟨fun c' => ?_, fun c' => ?_, h.missed⟩
  · show _ ↔ d.given.length ≤ c'
    rw [← h.accepted c']
    by_cases hc : c' = c
    · rw [hc, Function.update_self, hbook]
      exact ⟨fun h => (by cases h), fun h => by cases h⟩
    · rw [Function.update_of_ne hc]
  · show _ ↔ c' ∈ d.closed ++ [c]
    rw [List.mem_append, List.mem_singleton, ← h.closed c']
    by_cases hc : c' = c
    · rw [hc, Function.update_self]
      exact ⟨fun _ => Or.inr rfl, fun _ => rfl⟩
    · rw [Function.update_of_ne hc]
      exact ⟨Or.inl, fun h => h.resolve_right hc⟩

/-- An open connection goes from one to another. -/
theorem SocketsKept.pass {d : DescriptorTable} (h : SocketsKept d book) {c : Nat}
    {holder new : Holder n} (hbook : book c = some holder) (hopen : holder ≠ .closed)
    (hnew : new ≠ .closed) : SocketsKept d (Function.update book c (some new)) := by
  refine ⟨fun c' => ?_, fun c' => ?_, h.missed⟩
  · rw [← h.accepted c']
    by_cases hc : c' = c
    · rw [hc, Function.update_self, hbook]
      exact ⟨fun h => (by cases h), fun h => by cases h⟩
    · rw [Function.update_of_ne hc]
  · rw [update_book_iff hnew (by rw [hbook, Ne, Option.some.injEq]; exact hopen)]
    exact h.closed c'

/-- `main` has accepted a connection. -/
theorem Keeps.accept (h : Keeps s book queue) {fd : Nat} (hat : s.acceptor = .accepting)
    (hfree : s.descriptors.table fd = none) :
    FollowsBook book { s.goTo (.accepted fd) with
      descriptors := s.descriptors.opened fd hfree } := by
  have hnone : book s.descriptors.given.length = none := (h.sockets.accepted _).mpr (Nat.le_refl _)
  have hother : ∀ {holder}, book s.descriptors.given.length ≠ some holder := by
    intro holder
    rw [hnone]
    simp
  have hnobody : ∀ c, book c ≠ some .main := fun c hc =>
    ((h.acceptor.main c).mp hc).2 (by rw [hat]; rfl)
  have hlength : (s.descriptors.opened fd hfree).given.length = s.descriptors.given.length + 1 :=
    List.length_append
  have hlatest : (s.descriptors.opened fd hfree).given.length - 1 = s.descriptors.given.length := by
    rw [hlength, Nat.add_sub_cancel]
  refine ⟨Function.update book s.descriptors.given.length (some .main), queue,
    Or.inr ⟨_, BookStep.next (hnone ▸ Holder.Next.accept)⟩, ⟨?_, ?_, h.sockets.missed⟩,
    ⟨fun c => ?_, fun fd' hfd => ?_, fun task htask => by cases htask⟩, ?_, ?_, ?_⟩
  · intro c
    show _ ↔ (s.descriptors.opened fd hfree).given.length ≤ c
    rw [hlength]
    by_cases hc : c = s.descriptors.given.length
    · rw [hc, Function.update_self]
      exact ⟨fun h => (by cases h), fun h => absurd h (Nat.not_succ_le_self _)⟩
    · rw [Function.update_of_ne hc, h.sockets.accepted]
      omega
  · intro c
    rw [update_book_iff (by simp) hother]
    exact h.sockets.closed c
  · show _ ↔ c = (s.descriptors.opened fd hfree).given.length - 1 ∧ some fd ≠ none
    rw [hlatest]
    by_cases hc : c = s.descriptors.given.length
    · rw [hc, Function.update_self]
      exact ⟨fun _ => ⟨rfl, by simp⟩, fun _ => rfl⟩
    · rw [Function.update_of_ne hc]
      exact ⟨fun h => absurd h (hnobody c), fun h => absurd h.1 hc⟩
  · rw [← Option.some.inj hfd]
    show (s.descriptors.opened fd hfree).given[_ - 1]? = _
    rw [hlatest]
    exact DescriptorTable.given_opened_self hfree
  · exact h.queued.frame h.queued.queueAt (fun _ _ => rfl) (update_book_iff (by simp) hother)
  · exact h.workers.frame (fun _ _ => Iff.rfl) rfl rfl (Nat.le_refl _)
      (fun _ _ => DescriptorTable.given_opened hfree) (fun _ _ => rfl)
      (fun w => update_book_iff (by simp) hother) (fun _ => update_book_keeps hother)
  · refine h.tasks.frame rfl (fun _ _ => DescriptorTable.given_opened hfree) rfl fun task => ?_
    unfold ServerState.Pending
    rw [hat]
    rfl

/-- `main` closes the connection it could not hand on. -/
theorem Keeps.closeMain (h : Keeps s book queue) {fd : Nat} {acceptor : Acceptor}
    (hfd : s.acceptor.newSocket = some fd) (hsocket : acceptor.newSocket = none)
    (htask : acceptor.task = s.acceptor.task) :
    FollowsBook book ((s.close fd).goTo acceptor) := by
  have hmain : book s.latest = some .main := (h.acceptor.main _).mpr ⟨rfl, by rw [hfd]; simp⟩
  have hother : ∀ {holder}, holder ≠ .main → book s.latest ≠ some holder := by
    intro holder hne
    rw [hmain, Ne, Option.some.injEq]
    exact hne.symm
  have hgiven : ((s.close fd).goTo acceptor).descriptors.given = s.descriptors.given :=
    DescriptorTable.given_close _ _
  refine ⟨Function.update book s.latest (some .closed), queue,
    Or.inr ⟨_, BookStep.next (hmain ▸ Holder.Next.drop)⟩,
    (h.sockets.close (h.acceptor.socket fd hfd) hmain (by simp)).2,
    ⟨fun c => ?_, fun fd' hfd' => ?_, fun task htask' => ?_⟩, ?_, ?_, ?_⟩
  · refine ⟨fun hc => ?_, fun hc => absurd hsocket hc.2⟩
    by_cases heq : c = s.latest
    · rw [heq, Function.update_self] at hc
      cases hc
    · rw [Function.update_of_ne heq] at hc
      exact absurd ((h.acceptor.main c).mp hc).1 heq
  · rw [show ((s.close fd).goTo acceptor).acceptor.newSocket = none from hsocket] at hfd'
    cases hfd'
  · have hold := h.acceptor.task task (htask ▸ htask')
    rw [hfd, if_neg (by simp)] at hold
    have heq : s.madeFor task = s.latest := ((h.acceptor.main _).mp hold).1
    show Function.update book s.latest _ (s.madeFor task)
      = some (if acceptor.newSocket = none then _ else _)
    rw [hsocket, if_pos rfl, heq, Function.update_self]
  · exact h.queued.frame h.queued.queueAt (fun _ _ => rfl)
      (update_book_iff (by simp) (hother (by simp)))
  · exact h.workers.frame (fun _ _ => Iff.rfl) rfl rfl (Nat.le_refl _)
      (fun c fd' hc => by rw [hgiven]; exact hc) (fun _ _ => rfl)
      (fun w => update_book_iff (by simp) (hother (by simp)))
      (fun _ => update_book_keeps (hother (by simp)))
  · refine h.tasks.frame rfl (fun c fd' hc => by rw [hgiven]; exact hc) rfl fun task => ?_
    unfold ServerState.Pending
    rw [show ((s.close fd).goTo acceptor).acceptor.task = s.acceptor.task from htask]
    rfl

/-! ### Tasks -/

theorem ServerState.Executes.task_eq {w : Fin n} {t t' : Nat} (h : s.Executes w t)
    (h' : s.Executes w t') : t = t' := by
  unfold ServerState.Executes at h h'
  rw [h] at h'
  cases h'
  rfl

theorem ServerState.Pending.lt (h : TasksKept s queue) {task : Nat} (ht : s.Pending queue task) :
    task < s.tasks.fresh :=
  (Ledger.mem_live.mp ((h.pending task).mpr ht)).1

/-- Who is to read or to free a task knows who has its connection. -/
theorem Keeps.holder (h : Keeps s book queue) {task : Nat} :
    (s.acceptor.task = some task →
      book (s.madeFor task) = some .main ∨ book (s.madeFor task) = some .closed) ∧
    ((∃ t ∈ queue, t.argument = task) → book (s.madeFor task) = some .queue) ∧
    (∀ w, s.Executes w task → s.client w = none → book (s.madeFor task) = some (.worker w)) := by
  refine ⟨fun ht => ?_, fun ht => ?_, fun w hw hnew => ?_⟩
  · have hbook := h.acceptor.task task ht
    split at hbook
    · exact Or.inr hbook
    · exact Or.inl hbook
  · obtain ⟨t, ht, rfl⟩ := ht
    exact h.queued.queued t ht
  · have hbook := h.workers.has w task hw
    rw [h.workers.untaken w task hw hnew] at hbook
    exact hbook

/-- There was room for a task, and it is made for the connection accepted last. -/
theorem Keeps.allocate (h : Keeps s book queue) {fd : Nat} (hat : s.acceptor = .accepted fd) :
    FollowsBook book { s.goTo (.adding s.tasks.fresh fd) with
      tasks := (s.tasks.malloc { clientSocket := fd }).2
      madeFor := Function.update s.madeFor s.tasks.fresh s.latest } := by
  have hfd : s.acceptor.newSocket = some fd := by rw [hat]; rfl
  have hold : ∀ task < s.tasks.fresh,
      Function.update s.madeFor s.tasks.fresh s.latest task = s.madeFor task :=
    fun task hlt => Function.update_of_ne (Nat.ne_of_lt hlt) _ _
  refine ⟨book, queue, Or.inl rfl, h.sockets, ⟨fun c => ?_, fun fd' hfd' => ?_,
    fun task htask => ?_⟩, ?_, ?_, ⟨fun task htask => ?_, fun task => ?_⟩⟩
  · have hmain := h.acceptor.main c
    rw [hfd] at hmain
    exact hmain
  · exact h.acceptor.socket fd' (hfd.trans hfd')
  · have heq : s.tasks.fresh = task := Option.some.inj htask
    subst heq
    show book (Function.update s.madeFor s.tasks.fresh s.latest s.tasks.fresh)
      = some (if some fd = none then Holder.closed else .main)
    rw [Function.update_self, if_neg (by simp)]
    exact (h.acceptor.main _).mpr ⟨rfl, by rw [hfd]; simp⟩
  · exact h.queued.frame h.queued.queueAt
      (fun t ht => hold _ (ServerState.Pending.lt h.tasks (Or.inr (Or.inl ⟨t, ht, rfl⟩))))
      (fun _ => Iff.rfl)
  · exact h.workers.frame (fun _ _ => Iff.rfl) rfl rfl (Nat.le_succ _) (fun _ _ => id) hold
      (fun _ _ => Iff.rfl) (fun _ => id)
  · show s.descriptors.given[Function.update s.madeFor s.tasks.fresh s.latest task]? =
      some (Function.update s.tasks.contents s.tasks.fresh { clientSocket := fd } task).clientSocket
    rcases Heap.mem_live_malloc.mp htask with rfl | hlive
    · rw [Function.update_self, Function.update_self]
      exact h.acceptor.socket fd hfd
    · have hlt : task < s.tasks.fresh := (Ledger.mem_live.mp hlive).1
      rw [hold task hlt, Function.update_of_ne (Nat.ne_of_lt hlt)]
      exact h.tasks.made task hlive
  · have hnone : s.acceptor.task = none := by rw [hat]; rfl
    have hpending := h.tasks.pending task
    unfold ServerState.Pending at hpending ⊢
    rw [Heap.mem_live_malloc, hpending, hnone]
    refine ⟨?_, ?_⟩
    · rintro (rfl | hnever | hother)
      · exact Or.inl rfl
      · cases hnever
      · exact Or.inr hother
    · rintro (hnew | hother)
      · exact Or.inl (Option.some.inj hnew).symm
      · exact Or.inr (Or.inr hother)

/-- Freeing a task that nobody else is to read or to free. -/
theorem TasksKept.free (h : TasksKept s queue) {task : Nat} {tasks : Heap ClientTask}
    (hfree : s.tasks.free task = .done tasks) (htasks : s'.tasks = tasks)
    (hgiven : s'.descriptors = s.descriptors) (hmade : s'.madeFor = s.madeFor)
    (hpending : ∀ t, s'.Pending queue t ↔ s.Pending queue t ∧ t ≠ task) :
    TasksKept s' queue := by
  have hlive : task ∈ s.tasks.live := by
    by_contra hnot
    unfold Heap.free at hfree
    rw [dif_neg hnot] at hfree
    cases hfree
  obtain ⟨tasks', hfree', hcontents, -, hlives, -⟩ := Heap.free_eq hlive
  rw [hfree, Call.done.injEq] at hfree'
  subst hfree'
  refine ⟨fun t ht => ?_, fun t => ?_⟩
  · rw [htasks] at ht ⊢
    rw [hgiven, hmade, hcontents]
    exact h.made t ((hlives t).mp ht).1
  · rw [htasks, hlives, hpending, h.pending]

theorem fresh_of_free {tasks tasks' : Heap ClientTask} {task : Nat}
    (hfree : tasks.free task = .done tasks') : tasks'.fresh = tasks.fresh := by
  unfold Heap.free at hfree
  split at hfree
  · cases hfree
    rfl
  · cases hfree

/-- The connection is closed, and its task freed. -/
theorem Keeps.freeRefused (h : Keeps s book queue) {task : Nat} {tasks : Heap ClientTask}
    (hat : s.acceptor = .dropped task) (hfree : s.tasks.free task = .done tasks) :
    FollowsBook book { s.goTo .testing with tasks } := by
  have hclosed : book (s.madeFor task) = some .closed := by
    have hbook := h.acceptor.task task (by rw [hat]; rfl)
    rw [hat] at hbook
    exact hbook
  refine ⟨book, queue, Or.inl rfl, h.sockets, ⟨fun c => ?_, fun fd hfd => (by cases hfd),
    fun t ht => by cases ht⟩, ?_, ?_, ?_⟩
  · have hmain := h.acceptor.main c
    rw [hat] at hmain
    exact hmain
  · exact h.queued.frame h.queued.queueAt (fun _ _ => rfl) (fun _ => Iff.rfl)
  · exact h.workers.frame (fun _ _ => Iff.rfl) rfl rfl (Nat.le_of_eq (fresh_of_free hfree).symm)
      (fun _ _ => id) (fun _ _ => rfl) (fun _ _ => Iff.rfl) (fun _ => id)
  · refine h.tasks.free hfree rfl rfl rfl fun t => ?_
    unfold ServerState.Pending
    rw [hat]
    refine ⟨?_, ?_⟩
    · rintro (hnever | hqueue | ⟨w, hw, hnew⟩)
      · cases hnever
      · refine ⟨Or.inr (Or.inl hqueue), ?_⟩
        rintro rfl
        have hbook := h.holder.2.1 hqueue
        rw [hclosed] at hbook
        cases hbook
      · refine ⟨Or.inr (Or.inr ⟨w, hw, hnew⟩), ?_⟩
        rintro rfl
        have hbook := h.holder.2.2 w hw hnew
        rw [hclosed] at hbook
        cases hbook
    · rintro ⟨hsame | hother, hne⟩
      · exact absurd (Option.some.inj hsame).symm hne
      · exact Or.inr hother

/-- A worker reads its task and frees it. -/
theorem Keeps.take (h : Keeps s book queue) {w : Fin n} {task : Nat} {clientTask : ClientTask}
    {tasks : Heap ClientTask} (hbusy : s.Executes w task) (hnew : s.client w = none)
    (hread : s.tasks.read task = .done clientTask) (hfree : s.tasks.free task = .done tasks) :
    FollowsBook book { s with
      tasks, client := Function.update s.client w (some clientTask.clientSocket) } := by
  have hlive : task ∈ s.tasks.live := (h.tasks.pending task).mpr (Or.inr (Or.inr ⟨w, hbusy, hnew⟩))
  have hcontents : s.tasks.contents task = clientTask := by
    unfold Heap.read at hread
    rw [if_pos hlive, Call.done.injEq] at hread
    exact hread
  have hgiven := h.tasks.made task hlive
  rw [hcontents] at hgiven
  have hmine := h.holder.2.2 w hbusy hnew
  have hself : Function.update s.client w (some clientTask.clientSocket) w
      = some clientTask.clientSocket := Function.update_self _ _ _
  have hkept : ∀ v, v ≠ w →
      Function.update s.client w (some clientTask.clientSocket) v = s.client v :=
    fun v hv => Function.update_of_ne hv _ _
  have hnone : ∀ v, Function.update s.client w (some clientTask.clientSocket) v = none →
      v ≠ w ∧ s.client v = none := by
    intro v hv
    by_cases hvw : v = w
    · rw [hvw, hself] at hv
      cases hv
    · exact ⟨hvw, hkept v hvw ▸ hv⟩
  refine ⟨book, queue, Or.inl rfl, h.sockets, ?_, ?_, ⟨?_, fun v t hv hv' => ?_,
    fun v t fd hv hfd => ?_, h.workers.has, h.workers.all⟩, ?_⟩
  · exact h.acceptor.frame rfl ⟨rfl, rfl⟩ rfl (fun _ => Iff.rfl) (fun _ => id)
  · exact h.queued.frame h.queued.queueAt (fun _ _ => rfl) (fun _ => Iff.rfl)
  · intro v t hv
    show t < tasks.fresh
    rw [fresh_of_free hfree]
    exact h.workers.below v t hv
  · exact h.workers.untaken v t hv (hnone v hv').2
  · by_cases hvw : v = w
    · subst hvw
      rw [ServerState.Executes.task_eq hv hbusy]
      exact hgiven.trans (hself.symm.trans hfd)
    · exact h.workers.taken v t fd hv ((hkept v hvw).symm.trans hfd)
  · refine h.tasks.free hfree rfl rfl rfl fun t => ?_
    unfold ServerState.Pending
    refine ⟨?_, ?_⟩
    · rintro (hmain | hqueue | ⟨v, hv, hv'⟩)
      · refine ⟨Or.inl hmain, ?_⟩
        rintro rfl
        have hbook := h.holder.1 hmain
        rw [hmine] at hbook
        simp at hbook
      · refine ⟨Or.inr (Or.inl hqueue), ?_⟩
        rintro rfl
        have hbook := h.holder.2.1 hqueue
        rw [hmine] at hbook
        simp at hbook
      · obtain ⟨hvw, hv'⟩ := hnone v hv'
        refine ⟨Or.inr (Or.inr ⟨v, hv, hv'⟩), ?_⟩
        rintro rfl
        have hbook := h.holder.2.2 v hv hv'
        rw [hmine, Option.some.injEq, Holder.worker.injEq] at hbook
        exact hvw hbook.symm
    · rintro ⟨hmain | hqueue | ⟨v, hv, hv'⟩, hne⟩
      · exact Or.inl hmain
      · exact Or.inr (Or.inl hqueue)
      · refine Or.inr (Or.inr ⟨v, hv, ?_⟩)
        by_cases hvw : v = w
        · subst hvw
          exact absurd (ServerState.Executes.task_eq hv hbusy) hne
        · exact (hkept v hvw).trans hv'

/-! ### Steps in the pool -/

/-- The pool and `main` change, and neither the queue nor who is where in which task. -/
theorem Keeps.withCleanup (h : Keeps s book queue) {cleanup : CleanupState Unit Nat n}
    (hqueue : ∃ front, QueueAt cleanup.pool.state.pool front queue)
    (hexecutes : ∀ w task, cleanup.pool.state.workers w = .executing task ↔
      s.cleanup.pool.state.workers w = .executing task)
    (hpoint : cleanup.point = s.cleanup.point) : Keeps { s with cleanup } book queue := by
  refine ⟨h.sockets, ?_, ?_, ?_, ?_⟩
  · exact h.acceptor.frame rfl ⟨rfl, rfl⟩ rfl (fun _ => Iff.rfl) (fun _ => id)
  · exact h.queued.frame hqueue (fun _ _ => rfl) (fun _ => Iff.rfl)
  · exact h.workers.frame (fun w task => hexecutes w ⟨(), task⟩) rfl hpoint (Nat.le_refl _)
      (fun _ _ => id) (fun _ _ => rfl) (fun _ _ => Iff.rfl) (fun _ => id)
  · refine h.tasks.frame rfl (fun _ _ => id) rfl fun task => ?_
    unfold ServerState.Pending ServerState.Executes
    simp only [hexecutes]

/-- The task of the accept loop is put into the queue. -/
theorem Keeps.add (h : Keeps s book queue) {task fd : Nat} {cleanup : CleanupState Unit Nat n}
    (hat : s.acceptor = .adding task fd)
    (hstep : CleanupStep s.cleanup (.pool (.pool (.added ⟨(), task⟩))) cleanup) :
    FollowsBook book { s.goTo .testing with cleanup } := by
  have hmain : book (s.madeFor task) = some .main := by
    have hbook := h.acceptor.task task (by rw [hat]; rfl)
    rw [hat] at hbook
    exact hbook
  have hother : ∀ {holder}, holder ≠ .main → book (s.madeFor task) ≠ some holder := by
    intro holder hne
    rw [hmain, Ne, Option.some.injEq]
    exact hne.symm
  have hlatest : s.madeFor task = s.latest := ((h.acceptor.main _).mp hmain).1
  obtain ⟨front, hqueueAt⟩ := h.queued.queueAt
  rcases hstep with ⟨-, hshut⟩
  have hexecutes : ∀ w t, _ ↔ s.cleanup.pool.state.workers w = .executing t :=
    fun w t => shutdownStep_executing_iff hshut (by simp) (by simp)
  rcases hshut with ⟨-, -, ⟨hadd, -⟩⟩
  have hqueue' := queueAt_added hqueueAt hadd
  refine ⟨Function.update book (s.madeFor task) (some .queue), queue ++ [⟨(), task⟩],
    Or.inr ⟨_, BookStep.next (hmain ▸ Holder.Next.enqueue)⟩,
    h.sockets.pass hmain (by simp) (by simp), ⟨fun c => ?_, fun fd hfd => (by cases hfd),
      fun t ht => by cases ht⟩, ⟨⟨front, hqueue'⟩, fun t ht => ?_, fun c hc => ?_, ?_⟩, ?_, ?_⟩
  · refine ⟨fun hc => ?_, fun hc => absurd rfl hc.2⟩
    by_cases heq : c = s.madeFor task
    · rw [heq, Function.update_self] at hc
      cases hc
    · rw [Function.update_of_ne heq] at hc
      exact absurd (((h.acceptor.main c).mp hc).1.trans hlatest.symm) heq
  · rcases List.mem_append.mp ht with hold | hnew
    · exact update_book_keeps (hother (by simp)) (h.queued.queued t hold)
    · rw [List.mem_singleton.mp hnew]
      exact Function.update_self _ _ _
  · by_cases heq : c = s.madeFor task
    · exact ⟨⟨(), task⟩, List.mem_append_right _ (List.mem_singleton_self _), heq.symm⟩
    · rw [Function.update_of_ne heq] at hc
      obtain ⟨t, ht, hmadeFor⟩ := h.queued.all c hc
      exact ⟨t, List.mem_append_left _ ht, hmadeFor⟩
  · show ((queue ++ [(⟨(), task⟩ : ThreadPoolTask Unit Nat)]).map fun t =>
      s.madeFor t.argument).Nodup
    rw [List.map_append, List.map_singleton]
    refine List.nodup_append.mpr ⟨h.queued.once, List.nodup_singleton _, ?_⟩
    intro a ha b hb heq
    obtain ⟨t, ht, rfl⟩ := List.mem_map.mp ha
    have hqueued := h.queued.queued t ht
    rw [heq, List.mem_singleton.mp hb, hmain] at hqueued
    cases hqueued
  · exact h.workers.frame (fun w t => hexecutes w ⟨(), t⟩) rfl rfl (Nat.le_refl _) (fun _ _ => id)
      (fun _ _ => rfl) (fun w => update_book_iff (by simp) (hother (by simp)))
      (fun _ => update_book_keeps (hother (by simp)))
  · refine h.tasks.frame rfl (fun _ _ => id) rfl fun t => ?_
    refine ⟨?_, ?_⟩
    · rintro (hnever | ⟨t', ht', rfl⟩ | ⟨w, hw, hnew⟩)
      · cases hnever
      · rcases List.mem_append.mp ht' with hold | hnew
        · exact Or.inr (Or.inl ⟨t', hold, rfl⟩)
        · rw [List.mem_singleton.mp hnew]
          exact Or.inl (by rw [hat]; rfl)
      · exact Or.inr (Or.inr ⟨w, (hexecutes w ⟨(), t⟩).mp hw, hnew⟩)
    · rintro (hmine | ⟨t', ht', rfl⟩ | ⟨w, hw, hnew⟩)
      · rw [hat] at hmine
        exact Or.inr (Or.inl ⟨⟨(), task⟩, List.mem_append_right _ (List.mem_singleton_self _),
          Option.some.inj hmine⟩)
      · exact Or.inr (Or.inl ⟨t', List.mem_append_left _ ht', rfl⟩)
      · exact Or.inr (Or.inr ⟨w, (hexecutes w ⟨(), t⟩).mpr hw, hnew⟩)

/-- A worker fetches the first task of the queue. -/
theorem Keeps.fetched (h : Keeps s book queue) {w : Fin n} {t : ThreadPoolTask Unit Nat}
    {pool : ThreadPool Unit Nat} (hawake : s.cleanup.pool.state.workers w = .awake)
    (hturn : threadWorkerTurn s.cleanup.pool.state.pool = done (.execute t, pool))
    {cleanup : CleanupState Unit Nat n} (hpool : cleanup.pool.state.pool = pool)
    (hworkers : cleanup.pool.state.workers
      = Function.update s.cleanup.pool.state.workers w (.executing t))
    (hpoint : cleanup.point = Function.update s.cleanup.point w .handling) :
    FollowsBook book { s with cleanup, client := Function.update s.client w none } := by
  obtain ⟨front, hqueueAt⟩ := h.queued.queueAt
  obtain ⟨rest, rfl, hrest⟩ := queueAt_fetched hqueueAt hturn
  have hqueue : book (s.madeFor t.argument) = some .queue := h.queued.queued t List.mem_cons_self
  have hother : ∀ {holder}, holder ≠ .queue → book (s.madeFor t.argument) ≠ some holder := by
    intro holder hne
    rw [hqueue, Ne, Option.some.injEq]
    exact hne.symm
  have hself : cleanup.pool.state.workers w = .executing t := by
    rw [hworkers, Function.update_self]
  have hkept : ∀ v, v ≠ w →
      cleanup.pool.state.workers v = s.cleanup.pool.state.workers v ∧
        cleanup.point v = s.cleanup.point v ∧
        Function.update s.client w none v = s.client v := by
    intro v hv
    rw [hworkers, hpoint]
    exact ⟨Function.update_of_ne hv _ _, Function.update_of_ne hv _ _,
      Function.update_of_ne hv _ _⟩
  have hidle : ∀ task, ¬ s.Executes w task := by
    intro task hw
    unfold ServerState.Executes at hw
    rw [hawake] at hw
    cases hw
  have hmine : ∀ task, cleanup.pool.state.workers w = .executing ⟨(), task⟩ ↔
      task = t.argument := by
    intro task
    rw [hself, WorkerState.executing.injEq]
    exact ⟨fun heq => by rw [heq], fun heq => by rw [heq]⟩
  have hpointSelf : cleanup.point w = .handling := by
    rw [hpoint, Function.update_self]
  have honce := h.queued.once
  rw [List.map_cons, List.nodup_cons] at honce
  refine ⟨Function.update book (s.madeFor t.argument) (some (.worker w)), rest,
    Or.inr ⟨_, BookStep.next (hqueue ▸ Holder.Next.fetch w)⟩,
    h.sockets.pass hqueue (by simp) (by simp), ?_, ⟨⟨_, hpool ▸ hrest⟩, fun t' ht' => ?_,
      fun c hc => ?_, honce.2⟩, ⟨fun v task hv => ?_, fun v task hv hv' => ?_,
      fun v task fd hv hfd => ?_, fun v task hv => ?_, fun v c hc => ?_⟩, ⟨h.tasks.made, ?_⟩⟩
  · exact h.acceptor.frame rfl ⟨rfl, rfl⟩ rfl (update_book_iff (by simp) (hother (by simp)))
      (fun _ => update_book_keeps (hother (by simp)))
  · have hne : s.madeFor t'.argument ≠ s.madeFor t.argument := fun heq =>
      honce.1 (List.mem_map.mpr ⟨t', ht', heq⟩)
    show Function.update book _ _ (s.madeFor t'.argument) = _
    rw [Function.update_of_ne hne]
    exact h.queued.queued t' (List.mem_cons_of_mem _ ht')
  · by_cases heq : c = s.madeFor t.argument
    · rw [heq, Function.update_self] at hc
      cases hc
    · rw [Function.update_of_ne heq] at hc
      obtain ⟨t', ht', hmadeFor⟩ := h.queued.all c hc
      rcases List.mem_cons.mp ht' with rfl | hin
      · exact absurd hmadeFor.symm heq
      · exact ⟨t', hin, hmadeFor⟩
  · by_cases hvw : v = w
    · subst hvw
      rw [(hmine task).mp hv]
      exact ServerState.Pending.lt h.tasks
        (Or.inr (Or.inl ⟨t, List.mem_cons_self, rfl⟩))
    · exact h.workers.below v task ((hkept v hvw).1.symm.trans hv)
  · by_cases hvw : v = w
    · rw [hvw]
      exact hpointSelf
    · exact (hkept v hvw).2.1.trans (h.workers.untaken v task ((hkept v hvw).1.symm.trans hv)
        ((hkept v hvw).2.2.symm.trans hv'))
  · by_cases hvw : v = w
    · rw [hvw] at hfd
      exact absurd ((Function.update_self _ _ _).symm.trans hfd) (by simp)
    · exact h.workers.taken v task fd ((hkept v hvw).1.symm.trans hv)
        ((hkept v hvw).2.2.symm.trans hfd)
  · by_cases hvw : v = w
    · subst hvw
      rw [(hmine task).mp hv]
      show Function.update book _ _ _ = some (if (cleanup.point v).hasClosed = true then _ else _)
      rw [hpointSelf, Function.update_self]
      rfl
    · have hbook := h.workers.has v task ((hkept v hvw).1.symm.trans hv)
      show Function.update book _ _ _ = some (if (cleanup.point v).hasClosed = true then _ else _)
      rw [(hkept v hvw).2.1]
      refine update_book_keeps (hother ?_) hbook
      split <;> simp
  · by_cases heq : c = s.madeFor t.argument
    · rw [heq, Function.update_self, Option.some.injEq, Holder.worker.injEq] at hc
      subst hc
      exact ⟨t.argument, (hmine _).mpr rfl, heq.symm⟩
    · rw [Function.update_of_ne heq] at hc
      obtain ⟨task, hv, hmadeFor⟩ := h.workers.all v c hc
      have hvw : v ≠ w := fun hvw => hidle task (hvw ▸ hv)
      exact ⟨task, (hkept v hvw).1.trans hv, hmadeFor⟩
  · intro task
    rw [show (_ : List Nat) = s.tasks.live from rfl, h.tasks.pending task]
    refine ⟨?_, ?_⟩
    · rintro (hmain | ⟨t', ht', rfl⟩ | ⟨v, hv, hv'⟩)
      · exact Or.inl hmain
      · rcases List.mem_cons.mp ht' with rfl | hin
        · exact Or.inr (Or.inr ⟨w, (hmine _).mpr rfl, Function.update_self _ _ _⟩)
        · exact Or.inr (Or.inl ⟨t', hin, rfl⟩)
      · have hvw : v ≠ w := fun hvw => hidle task (hvw ▸ hv)
        exact Or.inr (Or.inr ⟨v, (hkept v hvw).1.trans hv, (hkept v hvw).2.2.trans hv'⟩)
    · rintro (hmain | ⟨t', ht', rfl⟩ | ⟨v, hv, hv'⟩)
      · exact Or.inl hmain
      · exact Or.inr (Or.inl ⟨t', List.mem_cons_of_mem _ ht', rfl⟩)
      · by_cases hvw : v = w
        · subst hvw
          exact Or.inr (Or.inl ⟨t, List.mem_cons_self, ((hmine task).mp hv).symm⟩)
        · exact Or.inr (Or.inr ⟨v, (hkept v hvw).1.symm.trans hv,
            (hkept v hvw).2.2.symm.trans hv'⟩)

/-- A worker returns from `handleClient`, which has closed its connection. -/
theorem Keeps.finished (h : Keeps s book queue) {w : Fin n} {t : ThreadPoolTask Unit Nat}
    (hbusy : s.cleanup.pool.state.workers w = .executing t)
    (hreturned : s.cleanup.point w = .returned) {cleanup : CleanupState Unit Nat n}
    (hpool : cleanup.pool.state.pool = s.cleanup.pool.state.pool)
    (hworkers : cleanup.pool.state.workers = Function.update s.cleanup.pool.state.workers w .awake)
    (hpoint : cleanup.point = s.cleanup.point) : Keeps { s with cleanup } book queue := by
  have hexecutes : ∀ v task, cleanup.pool.state.workers v = .executing ⟨(), task⟩ ↔
      v ≠ w ∧ s.Executes v task := by
    intro v task
    rw [hworkers]
    by_cases hvw : v = w
    · rw [hvw, Function.update_self]
      exact ⟨fun h => (by cases h), fun h => absurd rfl h.1⟩
    · rw [Function.update_of_ne hvw]
      exact ⟨fun h => ⟨hvw, h⟩, fun h => h.2⟩
  refine ⟨h.sockets, ?_, ?_, ⟨fun v task hv => ?_, fun v task hv hv' => ?_,
    fun v task fd hv hfd => ?_, fun v task hv => ?_, fun v c hc => ?_⟩, ?_⟩
  · exact h.acceptor.frame rfl ⟨rfl, rfl⟩ rfl (fun _ => Iff.rfl) (fun _ => id)
  · refine h.queued.frame ?_ (fun _ _ => rfl) (fun _ => Iff.rfl)
    show ∃ front, QueueAt cleanup.pool.state.pool front queue
    rw [hpool]
    exact h.queued.queueAt
  · exact h.workers.below v task ((hexecutes v task).mp hv).2
  · show cleanup.point v = _
    rw [hpoint]
    exact h.workers.untaken v task ((hexecutes v task).mp hv).2 hv'
  · exact h.workers.taken v task fd ((hexecutes v task).mp hv).2 hfd
  · show _ = some (if (cleanup.point v).hasClosed = true then _ else _)
    rw [hpoint]
    exact h.workers.has v task ((hexecutes v task).mp hv).2
  · obtain ⟨task, hv, hmadeFor⟩ := h.workers.all v c hc
    refine ⟨task, (hexecutes v task).mpr ⟨?_, hv⟩, hmadeFor⟩
    -- the one that returns has closed its connection, and the book knows it
    rintro rfl
    have hbook := h.workers.has v task hv
    rw [hreturned, hmadeFor, hc] at hbook
    cases hbook
  · refine h.tasks.frame rfl (fun _ _ => id) rfl fun task => ?_
    unfold ServerState.Pending
    refine or_congr Iff.rfl (or_congr Iff.rfl (exists_congr fun v => ?_))
    refine ⟨fun hv => ⟨((hexecutes v task).mp hv.1).2, hv.2⟩, fun hv => ?_⟩
    refine ⟨(hexecutes v task).mpr ⟨?_, hv.1⟩, hv.2⟩
    rintro rfl
    have hpoint' := h.workers.untaken v task hv.1 hv.2
    rw [hreturned] at hpoint'
    cases hpoint'

/-- Whatever the pool does next. -/
theorem Keeps.pool (h : Keeps s book queue) {event : ShutdownEvent Unit Nat n}
    {cleanup : CleanupState Unit Nat n} (hother : event.isAdd = false)
    (hstep : CleanupStep s.cleanup (.pool event) cleanup) :
    FollowsBook book { s with cleanup, client := clientsAfter s.client event } := by
  rcases hstep with ⟨hallowed, hshut⟩
  by_cases hfetched : ∃ w t, event = .pool (.fetched w t)
  · obtain ⟨w, t, rfl⟩ := hfetched
    cases hshut with
    | pool _ _ hpool =>
        cases hpool with
        | fetched hawake hturn => exact h.fetched hawake hturn rfl rfl rfl
  by_cases hfinished : ∃ w t, event = .pool (.finished w t)
  · obtain ⟨w, t, rfl⟩ := hfinished
    cases hshut with
    | pool _ _ hpool =>
        cases hpool with
        | finished hbusy =>
            exact ⟨book, queue, Or.inl rfl, h.finished hbusy hallowed rfl rfl rfl⟩
  · have hpoint : pointsAfter s.cleanup.point event = s.cleanup.point := by
      unfold pointsAfter
      split
      · exact absurd ⟨_, _, rfl⟩ hfetched
      · rfl
    have hclient : clientsAfter s.client event = s.client := by
      unfold clientsAfter
      split
      · exact absurd ⟨_, _, rfl⟩ hfetched
      · rfl
    rw [hclient]
    refine ⟨book, queue, Or.inl rfl, h.withCleanup (shutdownStep_queue hshut h.queued.queueAt ?_)
      (fun w t => shutdownStep_executing_iff hshut (fun heq => hfetched ⟨w, t, heq⟩)
        fun heq => hfinished ⟨w, t, heq⟩) hpoint⟩
    rintro e rfl
    cases e with
    | added => cases hother
    | fetched w t => exact absurd ⟨w, t, rfl⟩ hfetched
    | _ => exact ⟨rfl, rfl⟩

/-! ### Steps of the handler -/

/-- The socket has been closed after the point that closes it, and not before. -/
theorem HandlePoint.hasClosed_next {p q : HandlePoint} (h : q ∈ p.next) :
    q.hasClosed = (p.closes || p.hasClosed) ∧ (p.closes && p.hasClosed) = false := by
  cases p <;> cases q <;> simp_all [HandlePoint.next, HandlePoint.hasClosed, HandlePoint.closes]

/-- The handler goes on, past a point that does not close the socket. -/
theorem Keeps.moved (h : Keeps s book queue) {w : Fin n} {task fd : Nat} {p : HandlePoint}
    (hbusy : s.Executes w task) (hclient : s.client w = some fd)
    (hsame : p.hasClosed = (s.cleanup.point w).hasClosed) :
    Keeps { s with cleanup :=
      { s.cleanup with point := Function.update s.cleanup.point w p } } book queue := by
  refine ⟨h.sockets, ?_, ?_, ⟨h.workers.below, fun v t hv hv' => ?_, h.workers.taken,
    fun v t hv => ?_, h.workers.all⟩, ?_⟩
  · exact h.acceptor.frame rfl ⟨rfl, rfl⟩ rfl (fun _ => Iff.rfl) (fun _ => id)
  · exact h.queued.frame h.queued.queueAt (fun _ _ => rfl) (fun _ => Iff.rfl)
  · have hvw : v ≠ w := by
      rintro rfl
      rw [show s.client v = none from hv'] at hclient
      cases hclient
    exact (Function.update_of_ne hvw _ _).trans (h.workers.untaken v t hv hv')
  · have hbook := h.workers.has v t hv
    show _ = some (if (Function.update s.cleanup.point w p v).hasClosed = true then _ else _)
    by_cases hvw : v = w
    · subst hvw
      rw [Function.update_self, hsame]
      exact hbook
    · rw [Function.update_of_ne hvw]
      exact hbook
  · exact h.tasks.frame rfl (fun _ _ => id) rfl fun _ => Iff.rfl

/-- The handler closes its connection. -/
theorem Keeps.closed (h : Keeps s book queue) {w : Fin n} {task fd : Nat} {p : HandlePoint}
    (hbusy : s.Executes w task) (hclient : s.client w = some fd)
    (hbefore : (s.cleanup.point w).hasClosed = false) (hafter : p.hasClosed = true) :
    FollowsBook book { s.close fd with cleanup :=
      { s.cleanup with point := Function.update s.cleanup.point w p } } := by
  have hmine : book (s.madeFor task) = some (.worker w) := by
    have hbook := h.workers.has w task hbusy
    rw [hbefore] at hbook
    exact hbook
  have hother : ∀ {holder}, holder ≠ .worker w → book (s.madeFor task) ≠ some holder := by
    intro holder hne
    rw [hmine, Ne, Option.some.injEq]
    exact hne.symm
  have hgiven : (s.descriptors.close fd).given = s.descriptors.given :=
    DescriptorTable.given_close _ _
  refine ⟨Function.update book (s.madeFor task) (some .closed), queue,
    Or.inr ⟨_, BookStep.next (hmine ▸ Holder.Next.finish w)⟩,
    (h.sockets.close (h.workers.taken w task fd hbusy hclient) hmine (by simp)).2, ?_, ?_,
    ⟨h.workers.below, fun v t hv hv' => ?_, fun v t fd' hv hfd' => ?_, fun v t hv => ?_,
      fun v c hc => ?_⟩, ?_⟩
  · exact h.acceptor.frame hgiven ⟨rfl, rfl⟩ rfl (update_book_iff (by simp) (hother (by simp)))
      (fun _ => update_book_keeps (hother (by simp)))
  · exact h.queued.frame h.queued.queueAt (fun _ _ => rfl)
      (update_book_iff (by simp) (hother (by simp)))
  · have hvw : v ≠ w := by
      rintro rfl
      rw [show s.client v = none from hv'] at hclient
      cases hclient
    exact (Function.update_of_ne hvw _ _).trans (h.workers.untaken v t hv hv')
  · show (s.descriptors.close fd).given[s.madeFor t]? = some fd'
    rw [hgiven]
    exact h.workers.taken v t fd' hv hfd'
  · show Function.update book _ _ (s.madeFor t)
      = some (if (Function.update s.cleanup.point w p v).hasClosed = true then _ else _)
    by_cases hvw : v = w
    · subst hvw
      rw [ServerState.Executes.task_eq hv hbusy, Function.update_self, Function.update_self, hafter]
      rfl
    · rw [Function.update_of_ne hvw]
      refine update_book_keeps (hother ?_) (h.workers.has v t hv)
      split
      · simp
      · simp [hvw]
  · by_cases heq : c = s.madeFor task
    · rw [heq, Function.update_self] at hc
      cases hc
    · rw [Function.update_of_ne heq] at hc
      exact h.workers.all v c hc
  · exact h.tasks.frame rfl (fun c fd' hc => by rw [← hgiven] at hc; exact hc) rfl
      fun _ => Iff.rfl

/-! ### Runs -/

/-- **Every step keeps to the book.** -/
theorem Keeps.step (h : Keeps s book queue) {event : ServerEvent n}
    (hstep : ServerStep s event s') : FollowsBook book s' := by
  have stay : ∀ {t : ServerState n}, Keeps t book queue → FollowsBook book t :=
    fun ht => ⟨book, queue, Or.inl rfl, ht⟩
  cases hstep with
  | interrupt =>
      refine stay ⟨h.sockets, ?_, ?_, ?_, ?_⟩
      · exact h.acceptor.frame rfl ⟨rfl, rfl⟩ rfl (fun _ => Iff.rfl) (fun _ => id)
      · exact h.queued.frame h.queued.queueAt (fun _ _ => rfl) (fun _ => Iff.rfl)
      · exact h.workers.frame (fun _ _ => Iff.rfl) rfl rfl (Nat.le_refl _) (fun _ _ => id)
          (fun _ _ => rfl) (fun _ _ => Iff.rfl) (fun _ => id)
      · exact h.tasks.frame rfl (fun _ _ => id) rfl fun _ => Iff.rfl
  | test hat =>
      refine stay (h.goTo ?_ ?_)
      · rw [hat]
        split <;> rfl
      · rw [hat]
        split <;> rfl
  | acceptFailed hat => exact stay (h.goTo (by rw [hat]; rfl) (by rw [hat]; rfl))
  | accept hat hfree => exact h.accept hat hfree
  | noRoom hat => exact stay (h.goTo (by rw [hat]; rfl) (by rw [hat]; rfl))
  | closeUntasked hat => exact h.closeMain (by rw [hat]; rfl) rfl (by rw [hat]; rfl)
  | allocate hat => exact h.allocate hat
  | add hat hstep => exact h.add hat hstep
  | refuse hat hstep =>
      cases hstep with
      | @pool _ pool _ hshut =>
          have hkept : Keeps { s with cleanup := { s.cleanup with pool } } book queue := by
            refine h.withCleanup (shutdownStep_queue hshut h.queued.queueAt ?_)
              (fun w t => shutdownStep_executing_iff hshut (by simp) (by simp)) rfl
            intro e heq
            cases heq
            exact ⟨rfl, rfl⟩
          exact stay (hkept.goTo (by rw [show _ = s.acceptor from rfl, hat]; rfl)
            (by rw [show _ = s.acceptor from rfl, hat]; rfl))
  | closeRefused hat => exact h.closeMain (by rw [hat]; rfl) rfl (by rw [hat]; rfl)
  | freeRefused hat hfree => exact h.freeRefused hat hfree
  | pool hother hstep => exact h.pool hother hstep
  | take hbusy hnew hread hfree => exact h.take hbusy hnew hread hfree
  | use hstep =>
      rcases hstep with - | ⟨-, -⟩
      exact stay h
  | transfer => exact stay h
  | @move w fd p _ hclient hstep =>
      rcases hstep with - | - | ⟨⟨⟨_, task⟩, hbusy⟩, hnext⟩
      obtain ⟨hafter, hboth⟩ := HandlePoint.hasClosed_next hnext
      by_cases hcloses : (s.cleanup.point w).closes = true
      · rw [if_pos hcloses]
        rw [hcloses] at hafter hboth
        exact h.closed hbusy hclient hboth hafter
      · rw [if_neg hcloses]
        rw [Bool.not_eq_true] at hcloses
        rw [hcloses] at hafter
        exact stay (h.moved hbusy hclient hafter)
  | cleanUp _ hevent hstep =>
      have hsame : ∀ main, Keeps { s with cleanup := { s.cleanup with main } } book queue :=
        fun main => h.withCleanup h.queued.queueAt (fun _ _ => Iff.rfl) rfl
      rcases hevent with rfl | rfl | rfl
      · cases hstep with
        | destroyedLogger => exact stay (hsame _)
      · cases hstep with
        | freedTrie => exact stay (hsame _)
      · cases hstep with
        | freedCache => exact stay (hsame _)

theorem keeps_start (h : ServerStart s) : Keeps s (fun _ => none) [] := by
  have hpool := h.cleanup.pool.poolStart
  have hidle : ∀ w task, ¬ s.Executes w task := by
    intro w task hw
    unfold ServerState.Executes at hw
    rw [hpool.workers w] at hw
    cases hw
  refine ⟨⟨fun c => ?_, fun c => ?_, ?_⟩, ⟨fun c => ?_, fun fd hfd => ?_, fun task ht => ?_⟩,
    ⟨⟨0, ?_⟩, ?_, ?_, List.nodup_nil⟩, ⟨?_, ?_, ?_, ?_, ?_⟩, ⟨?_, fun task => ?_⟩⟩
  · rw [h.descriptors]
    exact ⟨fun _ => Nat.zero_le c, fun _ => rfl⟩
  · rw [h.descriptors]
    exact ⟨fun hc => (by cases hc), fun hc => absurd hc List.not_mem_nil⟩
  · rw [h.descriptors]
    rfl
  · refine ⟨fun hc => (by cases hc), fun hc => absurd ?_ hc.2⟩
    rw [h.acceptor]
    rfl
  · rw [h.acceptor] at hfd
    cases hfd
  · rw [h.acceptor] at ht
    cases ht
  · exact ⟨Nat.zero_le _, hpool.size, hpool.front, by decide, hpool.rear, rfl⟩
  · exact fun t ht => absurd ht List.not_mem_nil
  · exact fun c hc => by cases hc
  · exact fun w task hw => absurd hw (hidle w task)
  · exact fun w task hw => absurd hw (hidle w task)
  · exact fun w task fd hw => absurd hw (hidle w task)
  · exact fun w task hw => absurd hw (hidle w task)
  · exact fun w c hc => by cases hc
  · rw [h.tasks]
    exact fun task ht => absurd ht List.not_mem_nil
  · rw [h.tasks]
    refine ⟨fun ht => absurd ht List.not_mem_nil, ?_⟩
    rintro (ht | ⟨t, ht, -⟩ | ⟨w, hw, -⟩)
    · rw [h.acceptor] at ht
      cases ht
    · exact absurd ht List.not_mem_nil
    · exact absurd hw (hidle w task)

/-- Along a run of the server the book goes on with each step, or stays. -/
theorem keeps_trace {events : List (ServerEvent n)} (h : Trace ServerStart ServerStep events s) :
    ∃ book,
      Trace BookStart (fun book (_ : ServerEvent n) book' => BookMove book book') events book ∧
      ∃ queue, Keeps s book queue := by
  refine h.simulates (R := fun s book => ∃ queue, Keeps s book queue) (fun s hs => ?_) ?_
  · exact ⟨fun _ => none, fun _ => rfl, [], keeps_start hs⟩
  · intro s book event s' hkeeps hstep
    obtain ⟨queue, hkeeps⟩ := hkeeps
    obtain ⟨book', queue', hmove, hkeeps'⟩ := hkeeps.step hstep
    exact ⟨book', hmove, queue', hkeeps'⟩

end DnsServer
