/-
The end of `main`, while its workers are still at work.

When the accept loop is left, `main` destroys the logger, then the thread pool, which
joins the workers, and then frees the trie and the cache.  A worker that is executing
a task is at some point of `handleClient`; each point is a call, what it uses of the
three, and where the handler goes from there.  A call takes as many steps as it likes
(`logMessage` takes a lock, writes and lets go; a lookup follows many pointers), so a
worker may use what its point uses any number of times before it goes on.

The pool is the one of `thread.c`: what it allows, it allows here, except that tasks
are added only while `main` is in its loop and a task ends only where `handleClient`
returns.
-/
import DnsServer.Code.Thread

namespace DnsServer

/-- What `main` destroys and the workers share. -/
inductive Shared
  | logger
  | trie
  | cache
  deriving DecidableEq

/-- Where a call of `handleClient` is, named by what it is about to do. -/
inductive HandlePoint
  | handling
  | reading
  | readFailed
  | closingUnread
  | received
  | trieRequested
  | drawing
  | trieReply
  | retrieving
  | hit
  | adding
  | added
  | notFound
  | forwarding
  | forwarded
  | addingForwarded
  | addedForwarded
  | forwardFailed
  | sending
  | sent
  | closing
  | closed
  | returned
  deriving DecidableEq

/-- What the call at each point uses. -/
def HandlePoint.uses : HandlePoint → List Shared
  | .handling => [.logger]
  | .reading => []
  | .readFailed => [.logger]
  | .closingUnread => []
  | .received => [.logger]
  | .trieRequested => [.logger]
  | .drawing => [.trie]
  | .trieReply => []
  | .retrieving => [.trie, .cache]
  | .hit => [.logger]
  | .adding => [.cache]
  | .added => [.logger]
  | .notFound => [.logger]
  | .forwarding => []
  | .forwarded => [.logger]
  | .addingForwarded => [.cache]
  | .addedForwarded => [.logger]
  | .forwardFailed => [.logger]
  -- the response is the value of an entry in the cache
  | .sending => [.cache]
  | .sent => [.logger]
  | .closing => []
  | .closed => [.logger]
  | .returned => []

/-- Where the handler can go on from each point. -/
def HandlePoint.next : HandlePoint → List HandlePoint
  | .handling => [.reading]
  | .reading => [.readFailed, .received]
  | .readFailed => [.closingUnread]
  | .closingUnread => [.returned]
  | .received => [.trieRequested, .retrieving]
  | .trieRequested => [.drawing]
  | .drawing => [.trieReply]
  | .trieReply => [.returned]
  | .retrieving => [.hit, .notFound]
  | .hit => [.adding]
  | .adding => [.added]
  | .added => [.sending]
  | .notFound => [.forwarding]
  | .forwarding => [.forwarded]
  | .forwarded => [.addingForwarded, .forwardFailed]
  | .addingForwarded => [.addedForwarded]
  | .addedForwarded => [.sending]
  | .forwardFailed => [.sending]
  | .sending => [.sent]
  | .sent => [.closing]
  | .closing => [.closed]
  | .closed => [.returned]
  | .returned => []

/-- Where `main` is. -/
inductive MainPhase
  /-- In the accept loop, up to the message that the server is shutting down. -/
  | serving
  | loggerDestroyed
  | trieFreed
  | cacheFreed
  deriving DecidableEq

/-- What `main` has destroyed by then. -/
def MainPhase.destroyed : MainPhase → List Shared
  | .serving => []
  | .loggerDestroyed => [.logger]
  | .trieFreed => [.logger, .trie]
  | .cacheFreed => [.logger, .trie, .cache]

structure CleanupState (φ α : Type) (n : Nat) where
  pool : ShutdownState φ α n
  /-- Where each worker is in `handleClient`, while it executes a task. -/
  point : Fin n → HandlePoint
  main : MainPhase

inductive CleanupEvent (φ α : Type) (n : Nat)
  | pool (event : ShutdownEvent φ α n)
  | used (w : Fin n) (r : Shared)
  | moved (w : Fin n) (p : HandlePoint)
  | destroyedLogger
  | freedTrie
  | freedCache

variable {φ α : Type} {n : Nat}

/-- The worker is in `handleClient`. -/
def CleanupState.Executing (s : CleanupState φ α n) (w : Fin n) : Prop :=
  ∃ task, s.pool.state.workers w = .executing task

/-- What `main` and `handleClient` allow the pool to do. -/
def Allowed (s : CleanupState φ α n) : ShutdownEvent φ α n → Prop
  | .pool (.added _) => s.main = .serving
  | .pool (.refused _) => s.main = .serving
  | .pool (.finished w _) => s.point w = .returned
  | .pool .stopped => s.main = .loggerDestroyed
  | .joined _ => s.main = .loggerDestroyed
  | .pool _ => True

/-- A worker that has fetched a task is at the beginning of `handleClient`. -/
def pointsAfter (point : Fin n → HandlePoint) : ShutdownEvent φ α n → Fin n → HandlePoint
  | .pool (.fetched w _) => Function.update point w .handling
  | _ => point

inductive CleanupStep :
    CleanupState φ α n → CleanupEvent φ α n → CleanupState φ α n → Prop
  | pool {s : CleanupState φ α n} {event : ShutdownEvent φ α n} {pool : ShutdownState φ α n}
      (hallowed : Allowed s event) (hstep : ShutdownStep s.pool event pool) :
      CleanupStep s (.pool event) { s with pool, point := pointsAfter s.point event }
  | used {s : CleanupState φ α n} {w : Fin n} {r : Shared} (hbusy : s.Executing w)
      (huses : r ∈ (s.point w).uses) : CleanupStep s (.used w r) s
  | moved {s : CleanupState φ α n} {w : Fin n} {p : HandlePoint} (hbusy : s.Executing w)
      (hnext : p ∈ (s.point w).next) :
      CleanupStep s (.moved w p) { s with point := Function.update s.point w p }
  | destroyedLogger {s : CleanupState φ α n} (hmain : s.main = .serving) :
      CleanupStep s .destroyedLogger { s with main := .loggerDestroyed }
  /-- `destroyThreadPool` has returned. -/
  | freedTrie {s : CleanupState φ α n} (hmain : s.main = .loggerDestroyed)
      (hjoined : s.pool.destroyer = .joining maxThreads) :
      CleanupStep s .freedTrie { s with main := .trieFreed }
  | freedCache {s : CleanupState φ α n} (hmain : s.main = .trieFreed) :
      CleanupStep s .freedCache { s with main := .cacheFreed }

/-- The pool just made, and `main` about to accept. -/
structure CleanupStart (s : CleanupState φ α n) : Prop where
  pool : ShutdownStart s.pool
  main : s.main = .serving

end DnsServer
