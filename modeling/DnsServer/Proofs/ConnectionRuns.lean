/-
What becomes of every client of the server.

The server refines the book: in every run each connection that was accepted is with
`main`, in the queue, with one worker or closed, and with one of them only, and nothing is
closed twice.  So a worker talks to the client its task was made for, even where
another worker had the same descriptor before, and a task is read and freed once.

What the join leaves are the tasks of the queue: their clients are neither answered nor
hung up on.  And the message of `handle_sigint` is right, that the server shuts down after
the next request: the accept loop may be in `accept`, and takes one more.
-/
import DnsServer.Proofs.Connections

namespace DnsServer

open Call Runs

variable {n : Nat} {s s' : ServerState n} {events : List (ServerEvent n)} {book : Book n}
  {queue : List (ThreadPoolTask Unit Nat)} {c task : Nat}

/-! ### Who has a connection -/

/-- The task is in the queue of the pool. -/
def ServerState.Queued (s : ServerState n) (task : Nat) : Prop :=
  some ⟨(), task⟩ ∈ queuedSlots s.cleanup.pool.state.pool

def ServerState.HeldBy (s : ServerState n) (c : Nat) : Holder n → Prop
  | .main => s.acceptor.newSocket ≠ none ∧ c = s.latest
  | .queue => ∃ task, s.Queued task ∧ s.madeFor task = c
  | .worker w => ∃ task, s.Executes w task ∧ s.madeFor task = c ∧
      (s.cleanup.point w).hasClosed = false
  | .closed => c ∈ s.descriptors.closed

theorem QueueKept.queued_iff (h : QueueKept s book queue) :
    s.Queued task ↔ ∃ t ∈ queue, t.argument = task := by
  obtain ⟨front, hqueue⟩ := h.queueAt
  have hslots : queuedSlots s.cleanup.pool.state.pool = queue.map some := by
    unfold queuedSlots
    rw [hqueue.frontEq, hqueue.size, Int.toNat_natCast, Int.toNat_natCast]
    exact hqueue.slots
  unfold ServerState.Queued
  rw [hslots, List.mem_map]
  refine ⟨fun ht => ?_, fun ht => ?_⟩
  · obtain ⟨t, hin, heq⟩ := ht
    exact ⟨t, hin, by rw [Option.some.inj heq]⟩
  · obtain ⟨t, hin, rfl⟩ := ht
    exact ⟨t, hin, rfl⟩

/-- The book says who has what. -/
theorem Keeps.heldBy (h : Keeps s book queue) (holder : Holder n) :
    book c = some holder ↔ s.HeldBy c holder := by
  cases holder with
  | main => exact (h.acceptor.main c).trans and_comm
  | queue =>
      refine ⟨fun hc => ?_, fun hc => ?_⟩
      · obtain ⟨t, ht, hmadeFor⟩ := h.queued.all c hc
        exact ⟨t.argument, h.queued.queued_iff.mpr ⟨t, ht, rfl⟩, hmadeFor⟩
      · obtain ⟨task, htask, rfl⟩ := hc
        obtain ⟨t, ht, rfl⟩ := h.queued.queued_iff.mp htask
        exact h.queued.queued t ht
  | worker w =>
      refine ⟨fun hc => ?_, fun hc => ?_⟩
      · obtain ⟨task, hw, rfl⟩ := h.workers.all w c hc
        have hhas := h.workers.has w task hw
        rw [hc] at hhas
        refine ⟨task, hw, rfl, ?_⟩
        by_contra hclosed
        rw [Bool.not_eq_false] at hclosed
        rw [hclosed] at hhas
        cases hhas
      · obtain ⟨task, hw, rfl, hopen⟩ := hc
        have hhas := h.workers.has w task hw
        rw [hopen] at hhas
        exact hhas
  | closed => exact h.sockets.closed c

/-- A connection was accepted exactly if the book has it. -/
theorem Keeps.accepted_iff (h : Keeps s book queue) :
    c < s.descriptors.given.length ↔ ∃ holder, book c = some holder := by
  rw [← Option.ne_none_iff_exists', Ne, h.sockets.accepted, Nat.not_le]

/-- It is open exactly if somebody has it. -/
theorem Keeps.open_iff (h : Keeps s book queue) :
    (∃ fd, s.descriptors.table fd = some c) ↔
      ∃ holder, holder ≠ .closed ∧ book c = some holder := by
  have hopened := s.descriptors.lt_iff_open_or_closed c
  have hdisjoint : (∃ fd, s.descriptors.table fd = some c) → c ∉ s.descriptors.closed := by
    rintro ⟨fd, hfd⟩
    exact ((s.descriptors.stands fd c).mp hfd).2
  rw [h.accepted_iff, ← h.sockets.closed] at hopened
  rw [← h.sockets.closed] at hdisjoint
  refine ⟨fun hfd => ?_, fun hholder => ?_⟩
  · obtain ⟨holder, hbook⟩ := hopened.mpr (Or.inl hfd)
    exact ⟨holder, fun heq => hdisjoint hfd (heq ▸ hbook), hbook⟩
  · obtain ⟨holder, hne, hbook⟩ := hholder
    refine (hopened.mp ⟨holder, hbook⟩).resolve_right fun hclosed => hne ?_
    rw [hbook] at hclosed
    exact Option.some.inj hclosed

/-- The book of a state. -/
def ServerState.HasBook (s : ServerState n) (book : Book n) : Prop :=
  ∀ c holder, book c = some holder ↔ s.HeldBy c holder

/-- There is only one. -/
theorem ServerState.HasBook.unique {book' : Book n} (h : s.HasBook book) (h' : s.HasBook book') :
    book' = book := by
  refine funext fun c => Option.ext fun holder => ?_
  rw [h' c holder, h c holder]

/-- Every connection of a book is with one holder. -/
theorem ServerState.HasBook.exists_iff (h : s.HasBook book) :
    (∃ holder, book c = some holder) ↔ ∃! holder, s.HeldBy c holder := by
  refine ⟨fun hc => ?_, fun hc => ?_⟩
  · obtain ⟨holder, hbook⟩ := hc
    refine ⟨holder, (h c holder).mp hbook, fun other hother => ?_⟩
    have hsame := (h c other).mpr hother
    rw [hbook] at hsame
    exact (Option.some.inj hsame).symm
  · obtain ⟨holder, hheld, -⟩ := hc
    exact ⟨holder, (h c holder).mpr hheld⟩

/--
**The server refines the book**: along every run the book of the server's state goes on as a book
may with each step, or stays; so each connection that was accepted is with exactly one of `main`,
the queue, a worker and those that closed theirs.  `close` is never given a descriptor that is not
open.
-/
theorem connections_refine_book (events : List (ServerEvent n)) (s : ServerState n)
    (h : Trace ServerStart ServerStep events s) :
    (∃ book, s.HasBook book ∧
      Trace BookStart (fun book (_ : ServerEvent n) book' => BookMove book book') events book) ∧
    (∀ event s' book book', ServerStep s event s' → s.HasBook book → s'.HasBook book' →
      BookMove book book') ∧
    (∀ c, c < s.descriptors.given.length ↔ ∃! holder, s.HeldBy c holder) ∧
    s.descriptors.missed = [] := by
  obtain ⟨book, htrace, queue, hkeeps⟩ := keeps_trace h
  have hbook : s.HasBook book := fun c holder => hkeeps.heldBy holder
  refine ⟨⟨book, hbook, htrace⟩, fun event s' book₁ book₂ hstep h₁ h₂ => ?_, fun c => ?_,
    hkeeps.sockets.missed⟩
  · obtain ⟨book', queue', hmove, hkeeps'⟩ := hkeeps.step hstep
    have hbook' : s'.HasBook book' := fun c holder => hkeeps'.heldBy holder
    rw [hbook.unique h₁, hbook'.unique h₂]
    exact hmove
  · rw [hkeeps.accepted_iff, hbook.exists_iff]

/--
**Clients are not crossed**: whatever a worker reads from or sends to is the connection its
task was made for, which is still open, and no other worker is executing a task made for it.
-/
theorem transfers_not_crossed (events : List (ServerEvent n)) (s s' : ServerState n)
    (h : Trace ServerStart ServerStep events s) (w : Fin n) (connection : Option Nat)
    (hstep : ServerStep s (.transferred w connection) s') :
    ∃ task, s.Executes w task ∧ connection = some (s.madeFor task) ∧
      s.madeFor task ∉ s.descriptors.closed ∧
      ∀ v, v ≠ w → ∀ task', s.Executes v task' → s.madeFor task' ≠ s.madeFor task := by
  obtain ⟨book, -, queue, hkeeps⟩ := keeps_trace h
  cases hstep with
  | @transfer _ task fd hbusy hclient htransfers =>
      have hopen : (s.cleanup.point w).hasClosed = false := by
        cases hpoint : s.cleanup.point w <;> simp_all [HandlePoint.transfers, HandlePoint.hasClosed]
      have hmine : book (s.madeFor task) = some (.worker w) :=
        (hkeeps.heldBy (.worker w)).mpr ⟨task, hbusy, rfl, hopen⟩
      have hnot : s.madeFor task ∉ s.descriptors.closed := by
        rw [← hkeeps.sockets.closed, hmine]
        simp
      refine ⟨task, hbusy, ?_, hnot, fun v hv task' hother heq => ?_⟩
      · exact (s.descriptors.stands fd _).mpr
          ⟨hkeeps.workers.taken w task fd hbusy hclient, hnot⟩
      · have hhis := hkeeps.workers.has v task' hother
        rw [heq, hmine] at hhis
        split at hhis
        · cases hhis
        · rw [Option.some.injEq, Holder.worker.injEq] at hhis
          exact hv hhis.symm

/-! ### Tasks -/

/--
**Tasks are read and freed once.**  What is on the heap is the task of the accept loop, those
of the queue and those a worker has fetched and not read yet; every read and every `free`
of a task is of one that is there, and what a worker reads is an open descriptor of the
connection the task was made for.
-/
theorem tasks_freed_once (events : List (ServerEvent n)) (s : ServerState n)
    (h : Trace ServerStart ServerStep events s) :
    (∀ task, task ∈ s.tasks.live ↔ s.acceptor.task = some task ∨ s.Queued task ∨
      ∃ w, s.Executes w task ∧ s.client w = none) ∧
    (∀ w task, s.Executes w task → s.client w = none →
      ∃ clientTask tasks, s.tasks.read task = done clientTask ∧ s.tasks.free task = done tasks ∧
        s.descriptors.table clientTask.clientSocket = some (s.madeFor task)) ∧
    (∀ task, s.acceptor = .dropped task → ∃ tasks, s.tasks.free task = done tasks) := by
  obtain ⟨book, -, queue, hkeeps⟩ := keeps_trace h
  have hlive : ∀ task, task ∈ s.tasks.live ↔ s.acceptor.task = some task ∨ s.Queued task ∨
      ∃ w, s.Executes w task ∧ s.client w = none := by
    intro task
    rw [hkeeps.queued.queued_iff]
    exact hkeeps.tasks.pending task
  refine ⟨hlive, fun w task hw hnew => ?_, fun task hat => ?_⟩
  · have htask := (hlive task).mpr (Or.inr (Or.inr ⟨w, hw, hnew⟩))
    obtain ⟨tasks, hfree, -⟩ := Heap.free_eq htask
    refine ⟨s.tasks.contents task, tasks, Heap.Has.read_eq ⟨htask, rfl⟩, hfree, ?_⟩
    refine (s.descriptors.stands _ _).mpr ⟨hkeeps.tasks.made task htask, ?_⟩
    rw [← hkeeps.sockets.closed, hkeeps.holder.2.2 w hw hnew]
    simp
  · have htask := (hlive task).mpr (Or.inl (by rw [hat]; rfl))
    obtain ⟨tasks, hfree, -⟩ := Heap.free_eq htask
    exact ⟨tasks, hfree⟩

/-! ### After the join -/

/-- A step of the server is one of its pool and of `main`, or leaves them as they are. -/
theorem ServerStep.cleanup_eq {event : ServerEvent n} (h : ServerStep s event s') :
    s'.cleanup = s.cleanup ∨ ∃ e, CleanupStep s.cleanup e s'.cleanup := by
  cases h with
  | add _ hstep => exact Or.inr ⟨_, hstep⟩
  | refuse _ hstep => exact Or.inr ⟨_, hstep⟩
  | pool _ hstep => exact Or.inr ⟨_, hstep⟩
  | use hstep => exact Or.inr ⟨_, hstep⟩
  | move _ hstep => exact Or.inr ⟨_, hstep⟩
  | cleanUp _ _ hstep => exact Or.inr ⟨_, hstep⟩
  | _ => exact Or.inl rfl

theorem cleanup_trace (h : Trace ServerStart ServerStep events s) :
    ∃ events', Trace CleanupStart CleanupStep events' s.cleanup := by
  induction h with
  | start hs => exact ⟨[], Trace.start hs.cleanup⟩
  | step _ hstep ih =>
      obtain ⟨events', htrace⟩ := ih
      rcases hstep.cleanup_eq with hsame | ⟨e, hnext⟩
      · exact ⟨events', hsame ▸ htrace⟩
      · exact ⟨_, Trace.step htrace hnext⟩

/-- Nobody comes back into the loop. -/
theorem ServerStep.left {event : ServerEvent n} (h : ServerStep s event s')
    (hleft : s.acceptor = .left) : s'.acceptor = .left := by
  cases h with
  | interrupt => exact hleft
  | pool => exact hleft
  | take => exact hleft
  | use => exact hleft
  | transfer => exact hleft
  | move =>
      split
      · exact hleft
      · exact hleft
  | cleanUp => exact hleft
  | _ hat =>
      rw [hleft] at hat
      cases hat

/-- Before that `main` destroys nothing. -/
theorem ServerStep.main_eq {event : ServerEvent n} (h : ServerStep s event s')
    (hloop : s.acceptor ≠ .left) : s'.cleanup.main = s.cleanup.main := by
  have hpool : ∀ {cleanup : CleanupState Unit Nat n} {e}, CleanupStep s.cleanup (.pool e) cleanup →
      cleanup.main = s.cleanup.main := by
    intro cleanup e hstep
    cases hstep with
    | pool => rfl
  cases h with
  | add _ hstep => exact hpool hstep
  | refuse _ hstep => exact hpool hstep
  | pool _ hstep => exact hpool hstep
  | use hstep =>
      cases hstep with
      | used => rfl
  | move _ hstep =>
      cases hstep with
      | moved => rfl
  | cleanUp hleft => exact absurd hleft hloop
  | _ => rfl

theorem left_of_destroyed (h : Trace ServerStart ServerStep events s)
    (hmain : s.cleanup.main ≠ .serving) : s.acceptor = .left := by
  induction h with
  | start hs => exact absurd hs.cleanup.main hmain
  | @step _ t _ _ _ hstep ih =>
      by_cases hleft : t.acceptor = .left
      · exact hstep.left hleft
      · rw [hstep.main_eq hleft] at hmain
        exact absurd (ih hmain) hleft

/--
**What is left at exit.**  Once the pool has been destroyed, the connections still open are
those whose tasks are in its queue, and so are the tasks still on the heap.
-/
theorem left_at_exit (events : List (ServerEvent n)) (s : ServerState n)
    (h : Trace ServerStart ServerStep events s)
    (hjoined : s.cleanup.main = .trieFreed ∨ s.cleanup.main = .cacheFreed) :
    (∀ c, (∃ fd, s.descriptors.table fd = some c) ↔ ∃ task, s.Queued task ∧ s.madeFor task = c) ∧
    ∀ task, task ∈ s.tasks.live ↔ s.Queued task := by
  obtain ⟨book, -, queue, hkeeps⟩ := keeps_trace h
  obtain ⟨events', htrace⟩ := cleanup_trace h
  have hleft : s.acceptor = .left := by
    refine left_of_destroyed h fun hserving => ?_
    rcases hjoined with hmain | hmain
    · rw [hserving] at hmain
      cases hmain
    · rw [hserving] at hmain
      cases hmain
  have hidle : ∀ w task, ¬ s.Executes w task := fun w task hw =>
    (freedLate_trace htrace).not_executing hjoined w ⟨_, hw⟩
  refine ⟨fun c => ?_, fun task => ?_⟩
  · rw [hkeeps.open_iff]
    refine ⟨fun hc => ?_, fun hc => ?_⟩
    · obtain ⟨holder, hopen, hbook⟩ := hc
      have hheld := (hkeeps.heldBy holder).mp hbook
      cases holder with
      | main =>
          refine absurd ?_ hheld.1
          rw [hleft]
          rfl
      | queue => exact hheld
      | worker w =>
          obtain ⟨task, hw, -⟩ := hheld
          exact absurd hw (hidle w task)
      | closed => exact absurd rfl hopen
    · exact ⟨.queue, by simp, (hkeeps.heldBy .queue).mpr hc⟩
  · rw [hkeeps.tasks.pending, hkeeps.queued.queued_iff]
    refine ⟨?_, fun ht => Or.inr (Or.inl ht)⟩
    rintro (ht | ht | ⟨w, hw, -⟩)
    · rw [hleft] at ht
      cases ht
    · exact ht
    · exact absurd hw (hidle w task)

/-! ### After SIGINT -/

/-- The connection a step accepted. -/
def ServerEvent.accepted? : ServerEvent n → Option Nat
  | accepted connection => some connection
  | _ => none

/-- The connections accepted on a run, in order. -/
def acceptedConnections (events : List (ServerEvent n)) : List Nat :=
  events.filterMap ServerEvent.accepted?

/-- Once `server_running` is 0 the accept loop does not come back to `accept`. -/
theorem ServerStep.stopped {event : ServerEvent n} (h : ServerStep s event s')
    (hstopped : s.serverRunning = false) : s'.serverRunning = false ∧
      (acceptedConnections [event]).length + (if s'.acceptor = .accepting then 1 else 0)
        ≤ if s.acceptor = .accepting then 1 else 0 := by
  cases h with
  | interrupt => exact ⟨rfl, Nat.le_of_eq (Nat.zero_add _)⟩
  | test hat =>
      refine ⟨hstopped, ?_⟩
      rw [hstopped, hat]
      exact Nat.le_refl _
  | acceptFailed hat =>
      refine ⟨hstopped, ?_⟩
      rw [hat]
      exact Nat.zero_le _
  | accept hat =>
      refine ⟨hstopped, ?_⟩
      rw [hat]
      exact Nat.le_refl _
  | pool => exact ⟨hstopped, Nat.le_of_eq (Nat.zero_add _)⟩
  | take => exact ⟨hstopped, Nat.le_of_eq (Nat.zero_add _)⟩
  | use => exact ⟨hstopped, Nat.le_of_eq (Nat.zero_add _)⟩
  | transfer => exact ⟨hstopped, Nat.le_of_eq (Nat.zero_add _)⟩
  | move =>
      split
      · exact ⟨hstopped, Nat.le_of_eq (Nat.zero_add _)⟩
      · exact ⟨hstopped, Nat.le_of_eq (Nat.zero_add _)⟩
  | cleanUp => exact ⟨hstopped, Nat.le_of_eq (Nat.zero_add _)⟩
  | _ => exact ⟨hstopped, Nat.zero_le _⟩

theorem stopped_trace {m : ServerState n} (hstopped : m.serverRunning = false)
    (h : Trace (· = m) ServerStep events s) : s.serverRunning = false ∧
      (acceptedConnections events).length + (if s.acceptor = .accepting then 1 else 0)
        ≤ if m.acceptor = .accepting then 1 else 0 := by
  induction h with
  | start hs =>
      subst hs
      exact ⟨hstopped, Nat.le_of_eq (Nat.zero_add _)⟩
  | @step events t _ event _ hstep ih =>
      obtain ⟨hstill, hbefore⟩ := ih
      obtain ⟨hafter, hone⟩ := hstep.stopped hstill
      refine ⟨hafter, ?_⟩
      have hsum : (acceptedConnections (events ++ [event])).length
          = (acceptedConnections events).length + (acceptedConnections [event]).length := by
        unfold acceptedConnections
        rw [List.filterMap_append, List.length_append]
      omega

/--
**The server shuts down after the next request**: after SIGINT one more connection is
accepted at most, and none unless the signal came while the accept loop was in `accept`.
-/
theorem interrupted_accepts_one (before after : List (ServerEvent n)) (s : ServerState n)
    (h : Trace ServerStart ServerStep (before ++ .interrupted :: after) s) :
    ∃ m, Trace ServerStart ServerStep before m ∧ (acceptedConnections after).length
      ≤ if m.acceptor = .accepting then 1 else 0 := by
  rw [List.append_cons] at h
  obtain ⟨m', hm', hafter⟩ := h.split
  obtain ⟨m, hm, hinterrupt⟩ := hm'.last
  cases hinterrupt with
  | interrupt =>
      have hone := (stopped_trace rfl hafter).2
      exact ⟨m, hm, Nat.le_trans (Nat.le_add_right _ _) hone⟩

/-! ### One client -/

theorem exists_serverStart : ∃ s : ServerState 5, ServerStart s := by
  obtain ⟨pool, hpool⟩ : ∃ pool : ShutdownState Unit Nat 5, ShutdownStart pool :=
    exists_start (by decide)
  exact ⟨{ cleanup := { pool, point := fun _ => .returned, main := .serving }
           acceptor := .testing, serverRunning := true, tasks := Heap.empty fun _ => ⟨0⟩
           descriptors := DescriptorTable.empty, client := fun _ => none, madeFor := fun _ => 0 },
    ⟨hpool, rfl⟩, rfl, rfl, rfl, rfl⟩

/-- The server is in `accept`. -/
theorem exists_accepting : ∃ (events : List (ServerEvent 5)) (s : ServerState 5),
    Trace ServerStart ServerStep events s ∧ s.acceptor = .accepting ∧
      s.descriptors = DescriptorTable.empty ∧ s.cleanup.main = .serving ∧
      ShutdownStart s.cleanup.pool := by
  obtain ⟨s, hs⟩ := exists_serverStart
  have htest := Trace.step (Trace.start hs) (ServerStep.test hs.acceptor)
  refine ⟨_, _, htest, ?_, hs.descriptors, hs.cleanup.main, hs.cleanup.pool⟩
  show (if s.serverRunning then Acceptor.accepting else .left) = .accepting
  rw [hs.running]
  rfl

/-- A client is accepted at descriptor 4, and its task is in the queue. -/
theorem exists_queued : ∃ (events : List (ServerEvent 5)) (s : ServerState 5) (task : Nat),
    Trace ServerStart ServerStep events s ∧ s.acceptor = .testing ∧ s.cleanup.main = .serving ∧
      s.cleanup.pool.destroyer = .notCalled ∧ (∀ w, s.cleanup.pool.state.workers w = .awake) ∧
      QueueAt s.cleanup.pool.state.pool 0 [⟨(), task⟩] ∧ s.cleanup.pool.state.pool.stop = 0 ∧
      s.tasks.Has task ⟨4⟩ ∧ s.descriptors.table 4 = some (s.madeFor task) := by
  obtain ⟨events, s, htrace, hat, hdescriptors, hmain, hpool⟩ := exists_accepting
  have hstart := hpool.poolStart
  have hqueue : QueueAt s.cleanup.pool.state.pool 0 [] :=
    ⟨Nat.zero_le _, hstart.size, hstart.front, by decide, hstart.rear, rfl⟩
  have hfree : s.descriptors.table 4 = none := by
    rw [hdescriptors]
    rfl
  have haccepted := Trace.step htrace (ServerStep.accept hat hfree)
  have hallocated := Trace.step haccepted (ServerStep.allocate rfl)
  obtain ⟨pool, hadd, hqueue', hstop⟩ := addTask_room hqueue (by decide) () s.tasks.fresh
  have hsignal : Signals s.cleanup.pool.state.workers s.cleanup.pool.state.workers :=
    Signals.nobody fun w => by
      rw [hstart.workers w]
      simp
  have hadded : ShutdownStep s.cleanup.pool (.pool (.added ⟨(), s.tasks.fresh⟩)) _ :=
    ShutdownStep.pool (by rw [hpool.destroyer]; simp) (by simp) (PoolStep.added hadd hsignal)
  have hqueued := Trace.step hallocated (ServerStep.add rfl
    (CleanupStep.pool (show Allowed s.cleanup (.pool (.added ⟨(), s.tasks.fresh⟩)) from hmain)
      hadded))
  refine ⟨_, _, s.tasks.fresh, hqueued, rfl, hmain, hpool.destroyer, hstart.workers, hqueue',
    hstop.trans hstart.stop, Heap.has_malloc, ?_⟩
  show Function.update s.descriptors.table 4 (some s.descriptors.given.length) 4
    = some (Function.update s.madeFor s.tasks.fresh _ s.tasks.fresh)
  rw [Function.update_self, Function.update_self]
  show _ = some ((s.descriptors.given ++ [4]).length - 1)
  rw [List.length_append, List.length_singleton, Nat.add_sub_cancel]

/-- Worker 0 has fetched it. -/
theorem exists_taking : ∃ (events : List (ServerEvent 5)) (s : ServerState 5) (task : Nat),
    Trace ServerStart ServerStep events s ∧ s.Executes 0 task ∧ s.client 0 = none ∧
      s.cleanup.point 0 = .handling ∧ s.tasks.Has task ⟨4⟩ ∧
      s.descriptors.table 4 = some (s.madeFor task) := by
  obtain ⟨events, s, task, htrace, -, -, hdestroyer, hawake, hqueue, hstop, htask, hconnection⟩ :=
    exists_queued
  obtain ⟨pool, hturn, -⟩ := threadWorkerTurn_execute hqueue hstop
  have hfetched : ShutdownStep s.cleanup.pool (.pool (.fetched 0 ⟨(), task⟩)) _ :=
    ShutdownStep.pool (by rw [hdestroyer]; simp) (by simp) (PoolStep.fetched (hawake 0) hturn)
  have hnext := Trace.step htrace (ServerStep.pool rfl
    (CleanupStep.pool (show Allowed s.cleanup (.pool (.fetched 0 ⟨(), task⟩)) from trivial)
      hfetched))
  have hclient : Function.update s.client 0 none 0 = none := Function.update_self _ _ _
  have hpoint : Function.update s.cleanup.point 0 .handling 0 = .handling :=
    Function.update_self _ _ _
  have hworker : Function.update s.cleanup.pool.state.workers 0 (.executing ⟨(), task⟩) 0
      = .executing ⟨(), task⟩ := Function.update_self _ _ _
  exact ⟨_, _, task, hnext, hworker, hclient, hpoint, htask, hconnection⟩

/-- It has read the task, and is about to read from its client. -/
theorem exists_reading : ∃ (events : List (ServerEvent 5)) (s : ServerState 5) (task : Nat),
    Trace ServerStart ServerStep events s ∧ s.Executes 0 task ∧ s.client 0 = some 4 ∧
      s.cleanup.point 0 = .reading ∧ s.descriptors.table 4 = some (s.madeFor task) := by
  obtain ⟨events, s, task, htrace, hbusy, hnew, hpoint, htask, hconnection⟩ := exists_taking
  obtain ⟨tasks, hfree, -⟩ := Heap.free_eq htask.1
  have htaken := Trace.step htrace (ServerStep.take hbusy hnew htask.read_eq hfree)
  have hclient : Function.update s.client 0 (some 4) 0 = some 4 := Function.update_self _ _ _
  have hnext : HandlePoint.reading ∈ (s.cleanup.point 0).next := by
    rw [hpoint]
    decide
  have hmoved : CleanupStep s.cleanup (.moved 0 .reading) _ := CleanupStep.moved ⟨_, hbusy⟩ hnext
  have hreading := Trace.step htaken (ServerStep.move hclient hmoved)
  have hcloses : (s.cleanup.point 0).closes = false := by
    rw [hpoint]
    rfl
  rw [show ({ s with tasks, client := Function.update s.client 0 (some 4) } :
    ServerState 5).cleanup = s.cleanup from rfl, hcloses] at hreading
  have hpoint' : Function.update s.cleanup.point 0 .reading 0 = .reading :=
    Function.update_self _ _ _
  exact ⟨_, _, task, hreading, hbusy, hclient, hpoint', hconnection⟩

/-- Stopped workers that are awake exit, and the join loop runs to its end. -/
theorem exists_joined (h : Trace ServerStart ServerStep events s) (hleft : s.acceptor = .left)
    (hmain : s.cleanup.main = .loggerDestroyed) (hat : s.cleanup.pool.destroyer = .joining 0)
    (hawake : ∀ w, s.cleanup.pool.state.workers w = .awake) :
    ∃ (events' : List (ServerEvent n)) (s' : ServerState n),
      Trace ServerStart ServerStep events' s' ∧ s'.acceptor = .left ∧
      s'.cleanup.main = .loggerDestroyed ∧ s'.cleanup.pool.destroyer = .joining maxThreads ∧
      s'.cleanup.pool.state.pool = s.cleanup.pool.state.pool := by
  obtain ⟨events', htrace⟩ := cleanup_trace h
  have hjoin := (freedLate_trace htrace).join
  have hturn : threadWorkerTurn s.cleanup.pool.state.pool
      = done (.exit, s.cleanup.pool.state.pool) := by
    unfold threadWorkerTurn
    rw [if_neg fun heq => hjoin.stopped 0 hat heq.2, if_pos (hjoin.stopped 0 hat)]
  have hsteps : ∀ k, k ≤ maxThreads → ∃ (events' : List (ServerEvent n)) (s' : ServerState n),
      Trace ServerStart ServerStep events' s' ∧ s'.acceptor = .left ∧
      s'.cleanup.main = .loggerDestroyed ∧
      s'.cleanup.pool.destroyer = .joining k ∧
      s'.cleanup.pool.state.pool = s.cleanup.pool.state.pool ∧
      ∀ w : Fin n, k ≤ w.val → s'.cleanup.pool.state.workers w = .awake := by
    intro k
    induction k with
    | zero => exact fun _ => ⟨events, s, h, hleft, hmain, hat, rfl, fun w _ => hawake w⟩
    | succ k ih =>
        intro hk
        obtain ⟨events', t, htrace, htleft, htmain, htat, htpool, htawake⟩ := ih (by omega)
        have hentry := hjoin.threads ⟨k, hk⟩
        rw [← htpool] at hentry
        by_cases hkn : k < n
        · -- the worker exits, and is joined
          rw [threadEntry, if_pos hkn] at hentry
          have hexited := Trace.step htrace (ServerStep.pool rfl (CleanupStep.pool
            (show Allowed t.cleanup (.pool (.exited ⟨k, hkn⟩)) from trivial)
            (ShutdownStep.pool (by rw [htat, Ne, Destroyer.joining.injEq]; omega) (by simp)
              (PoolStep.exited (htawake ⟨k, hkn⟩ (Nat.le_refl k)) (htpool ▸ hturn)))))
          have hgone : Function.update t.cleanup.pool.state.workers ⟨k, hkn⟩ .exited ⟨k, hkn⟩
              = .exited := Function.update_self _ _ _
          refine ⟨_, _, Trace.step hexited (ServerStep.pool rfl (CleanupStep.pool
            (by exact htmain) (@ShutdownStep.join _ _ _ _ ⟨k, hk⟩ ⟨k, hkn⟩ htat hentry hgone))),
            htleft, htmain, rfl, htpool, fun w hw => ?_⟩
          have hw' : w ≠ ⟨k, hkn⟩ := fun heq => by
            rw [heq] at hw
            exact Nat.not_succ_le_self k hw
          exact (Function.update_of_ne hw' _ _).trans (htawake w (Nat.le_of_succ_le hw))
        · rw [threadEntry, if_neg hkn] at hentry
          refine ⟨_, _, Trace.step htrace (ServerStep.pool rfl (CleanupStep.pool
            (show Allowed t.cleanup (.joined none) from htmain)
            (@ShutdownStep.joinUnwritten _ _ _ _ ⟨k, hk⟩ htat hentry))), htleft, htmain, rfl,
            htpool, fun w hw => ?_⟩
          exact htawake w (Nat.le_of_succ_le hw)
  obtain ⟨events', s', htrace, hleft', hmain', hend, hpool, -⟩ :=
    hsteps maxThreads (Nat.le_refl _)
  exact ⟨events', s', htrace, hleft', hmain', hend, hpool⟩

theorem connections_refine_book_reading :
    ∃ (events : List (ServerEvent 5)) (s : ServerState 5) (c : Nat),
      Trace ServerStart ServerStep events s ∧ s.descriptors.table 4 = some c ∧
      (∃! holder, s.HeldBy c holder) ∧ s.descriptors.missed = [] := by
  obtain ⟨events, s, task, htrace, -, -, -, hconnection⟩ := exists_reading
  obtain ⟨-, -, hheld, hmissed⟩ := connections_refine_book events s htrace
  refine ⟨events, s, s.madeFor task, htrace, hconnection, (hheld _).mp ?_, hmissed⟩
  exact (s.descriptors.lt_iff_open_or_closed _).mpr (Or.inl ⟨4, hconnection⟩)

theorem transfers_not_crossed_reading :
    ∃ (events : List (ServerEvent 5)) (s : ServerState 5) (connection : Option Nat),
      Trace ServerStart ServerStep events s ∧ ServerStep s (.transferred 0 connection) s ∧
      ∃ task, s.Executes 0 task ∧ connection = some (s.madeFor task) := by
  obtain ⟨events, s, task, htrace, hbusy, hclient, hpoint, -⟩ := exists_reading
  have hstep := ServerStep.transfer hbusy hclient (by rw [hpoint]; rfl)
  obtain ⟨task', hbusy', hconnection, -⟩ := transfers_not_crossed events s s htrace 0 _ hstep
  exact ⟨events, s, _, htrace, hstep, task', hbusy', hconnection⟩

theorem tasks_freed_once_taking :
    ∃ (events : List (ServerEvent 5)) (s : ServerState 5) (task : Nat) (tasks : Heap ClientTask),
      Trace ServerStart ServerStep events s ∧ s.Executes 0 task ∧
      s.tasks.read task = done ⟨4⟩ ∧ s.tasks.free task = done tasks := by
  obtain ⟨events, s, task, htrace, hbusy, hnew, -, htask, -⟩ := exists_taking
  obtain ⟨-, hread, -⟩ := tasks_freed_once events s htrace
  obtain ⟨clientTask, tasks, -, hfree, -⟩ := hread 0 task hbusy hnew
  exact ⟨events, s, task, tasks, htrace, hbusy, htask.read_eq, hfree⟩

/-- The client is queued when SIGINT comes, and is still connected when everything is freed. -/
theorem left_at_exit_queued :
    ∃ (events : List (ServerEvent 5)) (s : ServerState 5) (c : Nat),
      Trace ServerStart ServerStep events s ∧ s.cleanup.main = .trieFreed ∧
      ∃ fd, s.descriptors.table fd = some c := by
  obtain ⟨events, s, task, htrace, hat, hmain, hdestroyer, hawake, hqueue, -⟩ := exists_queued
  have h₁ := Trace.step htrace ServerStep.interrupt
  have h₂ := Trace.step h₁ (ServerStep.test hat)
  have h₃ := Trace.step h₂ (ServerStep.cleanUp rfl (Or.inl rfl)
    (CleanupStep.destroyedLogger hmain))
  have h₄ := Trace.step h₃ (ServerStep.pool rfl (CleanupStep.pool
    (show Allowed { s.cleanup with main := .loggerDestroyed } (.pool .stopped) from rfl)
    (ShutdownStep.stop hdestroyer PoolStep.stopped)))
  have hbroadcast : ∀ w, broadcast s.cleanup.pool.state.workers w = .awake := by
    intro w
    unfold broadcast
    rw [hawake w]
  obtain ⟨events', t, h₅, hleft, hlogger, hend, hpool⟩ := exists_joined h₄ rfl rfl rfl hbroadcast
  have h₆ := Trace.step h₅ (ServerStep.cleanUp hleft (Or.inr (Or.inl rfl))
    (CleanupStep.freedTrie hlogger hend))
  obtain ⟨hopen, -⟩ := left_at_exit _ _ h₆ (Or.inl rfl)
  refine ⟨_, _, t.madeFor task, h₆, rfl, (hopen _).mpr ⟨task, ?_, rfl⟩⟩
  show some ⟨(), task⟩ ∈ queuedSlots t.cleanup.pool.state.pool
  rw [hpool]
  have hslots : RingBuffer.queued s.cleanup.pool.state.pool.taskQueue 0 1 = [some ⟨(), task⟩] :=
    hqueue.slots
  unfold queuedSlots
  show _ ∈ RingBuffer.queued s.cleanup.pool.state.pool.taskQueue
    s.cleanup.pool.state.pool.queueFront.toNat s.cleanup.pool.state.pool.queueSize.toNat
  rw [hqueue.frontEq, hqueue.size]
  show _ ∈ RingBuffer.queued s.cleanup.pool.state.pool.taskQueue 0 1
  rw [hslots]
  exact List.mem_singleton_self _

/-- SIGINT comes while the accept loop is waiting for a client. -/
theorem interrupted_accepts_one_waiting :
    ∃ (before after : List (ServerEvent 5)) (s : ServerState 5),
      Trace ServerStart ServerStep (before ++ .interrupted :: after) s ∧
      acceptedConnections after = [0] ∧ (acceptedConnections after).length ≤ 1 := by
  obtain ⟨events, s, htrace, hat, hdescriptors, -⟩ := exists_accepting
  have hfree : s.descriptors.table 4 = none := by
    rw [hdescriptors]
    rfl
  have hinterrupted := Trace.step htrace ServerStep.interrupt
  have haccepted := Trace.step hinterrupted
    (@ServerStep.accept _ { s with serverRunning := false } 4 hat hfree)
  rw [List.append_assoc] at haccepted
  obtain ⟨m, -, hone⟩ := interrupted_accepts_one _ _ _ haccepted
  refine ⟨events, _, _, haccepted, ?_, Nat.le_trans hone ?_⟩
  · show [s.descriptors.given.length] = [0]
    rw [hdescriptors]
    rfl
  · split
    · exact Nat.le_refl _
    · exact Nat.zero_le _

end DnsServer
