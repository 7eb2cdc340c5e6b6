/-
The accept loop of `main`, and the connections its workers handle.

`main` accepts a connection, allocates a `ClientTask` with its descriptor and hands the
task to the pool; where that fails it closes the connection itself.  A worker that has
fetched a task copies the descriptor, frees the task, and closes the descriptor on
every way out of `handleClient`.  The pool, the points of the handler and the order in
which `main` cleans up are those of `Cleanup`; here are the descriptors and the tasks
beside them.

Connections are numbered as they are accepted.  The kernel gives out any descriptor that
is not open, so a number that was closed may come back.  `madeFor` is there to speak of a
task's connection and nothing reads it.
-/
import DnsServer.Code.Cleanup
import DnsServer.Lib.DescriptorTable
import DnsServer.Lib.Heap

namespace DnsServer

/-- The `context` is the same for every task. -/
structure ClientTask where
  clientSocket : Nat
  deriving DecidableEq, Repr

/-- Where the accept loop is; what it holds are `new_socket` and `task`. -/
inductive Acceptor
  /-- About to look at `server_running`. -/
  | testing
  /-- In `accept`. -/
  | accepting
  | accepted (newSocket : Nat)
  /-- There was no room for a task. -/
  | noTask (newSocket : Nat)
  /-- About to call `addTaskToThreadPool`. -/
  | adding (task newSocket : Nat)
  /-- The queue was full. -/
  | full (task newSocket : Nat)
  /-- The connection has been closed, and the task not yet freed. -/
  | dropped (task : Nat)
  /-- Past the loop. -/
  | left
  deriving DecidableEq

def Acceptor.newSocket : Acceptor → Option Nat
  | accepted newSocket => some newSocket
  | noTask newSocket => some newSocket
  | adding _ newSocket => some newSocket
  | full _ newSocket => some newSocket
  | _ => none

def Acceptor.task : Acceptor → Option Nat
  | adding task _ => some task
  | full task _ => some task
  | dropped task => some task
  | _ => none

/-- The point reads from the client's socket, or sends to it. -/
def HandlePoint.transfers : HandlePoint → Bool
  | .reading => true
  | .trieReply => true
  | .sending => true
  | _ => false

/-- The point closes the client's socket. -/
def HandlePoint.closes : HandlePoint → Bool
  | .closingUnread => true
  | .trieReply => true
  | .closing => true
  | _ => false

/-- The client's socket has been closed. -/
def HandlePoint.hasClosed : HandlePoint → Bool
  | .closed => true
  | .returned => true
  | _ => false

/-- A task of the pool is the address of a `ClientTask`. -/
structure ServerState (n : Nat) where
  cleanup : CleanupState Unit Nat n
  acceptor : Acceptor
  serverRunning : Bool
  tasks : Heap ClientTask
  descriptors : DescriptorTable
  /-- `client_socket` of each worker, once it has read its task. -/
  client : Fin n → Option Nat
  /-- The connection each task was allocated for. -/
  madeFor : Nat → Nat

namespace ServerState

variable {n : Nat}

def goTo (s : ServerState n) (acceptor : Acceptor) : ServerState n := { s with acceptor }

/-- `close(fd)`. -/
def close (s : ServerState n) (fd : Nat) : ServerState n :=
  { s with descriptors := s.descriptors.close fd }

/-- The connection accepted last. -/
def latest (s : ServerState n) : Nat := s.descriptors.given.length - 1

/-- The worker is executing this task. -/
def Executes (s : ServerState n) (w : Fin n) (task : Nat) : Prop :=
  s.cleanup.pool.state.workers w = .executing ⟨(), task⟩

end ServerState

/-- What a step did; a transfer names the connection the descriptor stood for. -/
inductive ServerEvent (n : Nat)
  | interrupted
  | acceptor
  | accepted (connection : Nat)
  | took (w : Fin n)
  | transferred (w : Fin n) (connection : Option Nat)
  | cleanup (event : CleanupEvent Unit Nat n)

/-- A worker that has fetched a task has not read it yet. -/
def clientsAfter {n : Nat} (client : Fin n → Option Nat) :
    ShutdownEvent Unit Nat n → Fin n → Option Nat
  | .pool (.fetched w _) => Function.update client w none
  | _ => client

/-- Adding to the pool is the accept loop's. -/
def ShutdownEvent.isAdd {n : Nat} : ShutdownEvent Unit Nat n → Bool
  | .pool (.added _) => true
  | .pool (.refused _) => true
  | _ => false

inductive ServerStep {n : Nat} : ServerState n → ServerEvent n → ServerState n → Prop
  /-- `handle_sigint`. -/
  | interrupt {s : ServerState n} : ServerStep s .interrupted { s with serverRunning := false }
  | test {s : ServerState n} (hat : s.acceptor = .testing) :
      ServerStep s .acceptor (s.goTo (if s.serverRunning then .accepting else .left))
  | acceptFailed {s : ServerState n} (hat : s.acceptor = .accepting) :
      ServerStep s .acceptor (s.goTo .testing)
  | accept {s : ServerState n} {fd : Nat} (hat : s.acceptor = .accepting)
      (hfree : s.descriptors.table fd = none) :
      ServerStep s (.accepted s.descriptors.given.length)
        { s.goTo (.accepted fd) with descriptors := s.descriptors.opened fd hfree }
  | noRoom {s : ServerState n} {fd : Nat} (hat : s.acceptor = .accepted fd) :
      ServerStep s .acceptor (s.goTo (.noTask fd))
  | closeUntasked {s : ServerState n} {fd : Nat} (hat : s.acceptor = .noTask fd) :
      ServerStep s .acceptor ((s.close fd).goTo .testing)
  | allocate {s : ServerState n} {fd : Nat} (hat : s.acceptor = .accepted fd) :
      ServerStep s .acceptor
        { s.goTo (.adding s.tasks.fresh fd) with
          tasks := (s.tasks.malloc { clientSocket := fd }).2
          madeFor := Function.update s.madeFor s.tasks.fresh s.latest }
  | add {s : ServerState n} {task fd : Nat} {cleanup : CleanupState Unit Nat n}
      (hat : s.acceptor = .adding task fd)
      (hstep : CleanupStep s.cleanup (.pool (.pool (.added ⟨(), task⟩))) cleanup) :
      ServerStep s (.cleanup (.pool (.pool (.added ⟨(), task⟩))))
        { s.goTo .testing with cleanup }
  | refuse {s : ServerState n} {task fd : Nat} {cleanup : CleanupState Unit Nat n}
      (hat : s.acceptor = .adding task fd)
      (hstep : CleanupStep s.cleanup (.pool (.pool (.refused ⟨(), task⟩))) cleanup) :
      ServerStep s (.cleanup (.pool (.pool (.refused ⟨(), task⟩))))
        { s.goTo (.full task fd) with cleanup }
  | closeRefused {s : ServerState n} {task fd : Nat} (hat : s.acceptor = .full task fd) :
      ServerStep s .acceptor ((s.close fd).goTo (.dropped task))
  | freeRefused {s : ServerState n} {task : Nat} {tasks : Heap ClientTask}
      (hat : s.acceptor = .dropped task) (hfree : s.tasks.free task = .done tasks) :
      ServerStep s .acceptor { s.goTo .testing with tasks }
  /-- What the workers do in the pool, and the calls of `destroyThreadPool`. -/
  | pool {s : ServerState n} {event : ShutdownEvent Unit Nat n} {cleanup : CleanupState Unit Nat n}
      (hother : event.isAdd = false) (hstep : CleanupStep s.cleanup (.pool event) cleanup) :
      ServerStep s (.cleanup (.pool event))
        { s with cleanup, client := clientsAfter s.client event }
  /-- `client_socket = task->client_socket`, and `free(task)`. -/
  | take {s : ServerState n} {w : Fin n} {task : Nat} {clientTask : ClientTask}
      {tasks : Heap ClientTask} (hbusy : s.Executes w task) (hnew : s.client w = none)
      (hread : s.tasks.read task = .done clientTask) (hfree : s.tasks.free task = .done tasks) :
      ServerStep s (.took w)
        { s with tasks, client := Function.update s.client w (some clientTask.clientSocket) }
  | use {s : ServerState n} {w : Fin n} {r : Shared} {cleanup : CleanupState Unit Nat n}
      (hstep : CleanupStep s.cleanup (.used w r) cleanup) :
      ServerStep s (.cleanup (.used w r)) { s with cleanup }
  /-- `read` and `send`. -/
  | transfer {s : ServerState n} {w : Fin n} {task fd : Nat} (hbusy : s.Executes w task)
      (hclient : s.client w = some fd) (htransfers : (s.cleanup.point w).transfers = true) :
      ServerStep s (.transferred w (s.descriptors.table fd)) s
  | move {s : ServerState n} {w : Fin n} {fd : Nat} {p : HandlePoint}
      {cleanup : CleanupState Unit Nat n} (hclient : s.client w = some fd)
      (hstep : CleanupStep s.cleanup (.moved w p) cleanup) :
      ServerStep s (.cleanup (.moved w p))
        { (if (s.cleanup.point w).closes then s.close fd else s) with cleanup }
  /-- The cleanup of `main`, once it is past the loop. -/
  | cleanUp {s : ServerState n} {event : CleanupEvent Unit Nat n}
      {cleanup : CleanupState Unit Nat n} (hleft : s.acceptor = .left)
      (hevent : event = .destroyedLogger ∨ event = .freedTrie ∨ event = .freedCache)
      (hstep : CleanupStep s.cleanup event cleanup) :
      ServerStep s (.cleanup event) { s with cleanup }

/-- `main` before its first client. -/
structure ServerStart {n : Nat} (s : ServerState n) : Prop where
  cleanup : CleanupStart s.cleanup
  acceptor : s.acceptor = .testing
  running : s.serverRunning = true
  tasks : s.tasks.live = []
  descriptors : s.descriptors = DescriptorTable.empty

end DnsServer
