/-
The cache in memory, as several workers use it at once.

`cache.c` links the entries of a bucket through `next` and takes no lock.  One step
of a worker is one read of a pointer or of a node's fields, one write of a field, or
one free, and the steps of different workers come in any order.  Where a worker is in
`addCacheEntry`, or in `lookupDNSCache` with the printing and the cleaning it begins
with, is its phase, with the local variables it will still use.  `handleClient` does
both, as often as there are clients: it copies the value a lookup returns, and sends
the value of the entry it has added.

An address names an allocation, so none is given out twice.  The strings of a node
belong to it, and are `none` once they are freed.  A step that reads, writes or frees
what has been freed is undefined and not there: a worker whose phase needs one is
stuck.
-/
import DnsServer.Code.Cache

namespace DnsServer

structure CacheNode where
  domainName : Option Bytes
  recordValue : Option Bytes
  ttl : Int
  timestamp : Int
  next : Option Nat
  deriving DecidableEq, Repr

inductive Cell
  | unused
  | live (node : CacheNode)
  | freed
  deriving DecidableEq, Repr

/-- What the test of the cleaning read when it found an entry expired. -/
structure ExpiredTest where
  now : Int
  timestamp : Int
  ttl : Int
  expired : now - timestamp ≥ ttl

/-- What a worker does next. -/
inductive CachePhase
  | idle
  -- `addCacheEntry` of the node `a`, for the domain `d`
  | addHead (d : Bytes) (a : Nat)
  | addCompare (d : Bytes) (a head : Nat)
  | addNext (d : Bytes) (a head : Nat)
  | addTimestamp (d : Bytes) (a : Nat)
  | addTtl (d : Bytes) (a : Nat)
  | addReadHead (d : Bytes) (a : Nat)
  | addSetNext (d : Bytes) (a : Nat) (next : Option Nat)
  | addLink (d : Bytes) (a : Nat)
  | addPrint (d : Bytes) (a : Nat)
  -- the response, from an entry that was added or from one whose domain was there before
  | respondAdded (d : Bytes) (a : Nat)
  | respondRefused (d : Bytes) (a : Nat)
  -- `printDNSCache`, at the start of the lookup of `d`
  | printHead (d : Bytes) (now : Int) (i : Fin maxCache)
  | printRead (d : Bytes) (now : Int) (i : Fin maxCache) (entry : Nat)
  | printStrings (d : Bytes) (now : Int) (i : Fin maxCache) (entry : Nat)
  | printNext (d : Bytes) (now : Int) (i : Fin maxCache) (entry : Nat)
  -- `DNSCacheCleanUp`
  | cleanStart (d : Bytes)
  | cleanTest (d : Bytes) (now : Int) (i : Fin maxCache)
  | cleanHead (d : Bytes) (now : Int) (i : Fin maxCache)
  | cleanCheck (d : Bytes) (now : Int) (i : Fin maxCache) (previous : Option Nat) (entry : Nat)
  | cleanKeep (d : Bytes) (now : Int) (i : Fin maxCache) (entry : Nat)
  | cleanPrint (d : Bytes) (i : Fin maxCache) (previous : Option Nat) (entry : Nat)
      (test : ExpiredTest)
  | cleanRead (d : Bytes) (i : Fin maxCache) (previous : Option Nat) (entry : Nat)
      (test : ExpiredTest)
  | cleanUnlink (d : Bytes) (i : Fin maxCache) (previous : Option Nat) (entry : Nat)
      (next : Option Nat) (test : ExpiredTest)
  | cleanAdvance (d : Bytes) (i : Fin maxCache) (previous : Option Nat) (temp : Nat)
      (test : ExpiredTest)
  | cleanFreeDomain (d : Bytes) (i : Fin maxCache) (previous : Option Nat) (temp : Nat)
      (entry : Option Nat) (test : ExpiredTest)
  | cleanFreeRecord (d : Bytes) (i : Fin maxCache) (previous : Option Nat) (temp : Nat)
      (entry : Option Nat) (test : ExpiredTest)
  | cleanFreeNode (d : Bytes) (i : Fin maxCache) (previous : Option Nat) (temp : Nat)
      (entry : Option Nat) (test : ExpiredTest)
  -- the rest of `lookupDNSCache`
  | lookHead (d : Bytes)
  | lookCompare (d : Bytes) (entry : Nat)
  | lookNext (d : Bytes) (entry : Nat)
  | lookTouch (d : Bytes) (entry : Nat)
  | lookPrint (d : Bytes) (entry : Nat)
  | lookReturn (d : Bytes) (entry : Nat)
  | lookCopy (d : Bytes) (entry : Nat)

/-! ### The loops -/

/-- The bucket after this one, if the loop goes on. -/
def nextBucket (i : Fin maxCache) : Option (Fin maxCache) :=
  if h : i.val + 1 < maxCache then some ⟨i.val + 1, h⟩ else none

/-- `while (head)` in `addCacheEntry`. -/
def addFrom (d : Bytes) (a : Nat) : Option Nat → CachePhase
  | some head => .addCompare d a head
  | none => .addTimestamp d a

/-- `while (entry != NULL)` in `printDNSCache`. -/
def printFrom (d : Bytes) (now : Int) (i : Fin maxCache) : Option Nat → CachePhase
  | some entry => .printRead d now i entry
  | none =>
      match nextBucket i with
      | some i => .printHead d now i
      | none => .cleanStart d

/-- `while (entry != NULL)` in `DNSCacheCleanUp`. -/
def cleanFrom (d : Bytes) (now : Int) (i : Fin maxCache) (previous : Option Nat) :
    Option Nat → CachePhase
  | some entry => .cleanCheck d now i previous entry
  | none =>
      match nextBucket i with
      | some i => .cleanTest d now i
      | none => .lookHead d

/-- `while (entry != NULL)` in `lookupDNSCache`; a miss ends the lookup. -/
def lookFrom (d : Bytes) : Option Nat → CachePhase
  | some entry => .lookCompare d entry
  | none => .idle

/-! ### Steps -/

structure SharedCache (κ : Type) where
  buckets : Fin maxCache → Option Nat
  heap : Nat → Cell
  workers : κ → CachePhase

variable {κ : Type}

/-- The node at an address, if it is there to be read. -/
def Cell.node : Cell → Option CacheNode
  | .live node => some node
  | _ => none

def SharedCache.node (s : SharedCache κ) (a : Nat) : Option CacheNode := (s.heap a).node

/-- The phase after a step that only reads; `clock` is what `time(NULL)` gives. -/
def SharedCache.read (s : SharedCache κ) (clock : Int) : CachePhase → Option CachePhase
  | .addHead d a => some (addFrom d a (s.buckets (hashFunction d)))
  | .addCompare d a head => do
      let domainName ← (← s.node head).domainName
      if domainName = d then return .respondRefused d a else return .addNext d a head
  | .addNext d a head => do
      return addFrom d a (← s.node head).next
  | .addReadHead d a => some (.addSetNext d a (s.buckets (hashFunction d)))
  | .addPrint d a => do
      let node ← s.node a
      let _ ← node.domainName
      let _ ← node.recordValue
      return .respondAdded d a
  | .respondAdded _ a => do
      let _ ← (← s.node a).recordValue
      return .idle
  | .respondRefused _ a => do
      let _ ← (← s.node a).recordValue
      return .idle
  | .printHead d now i => some (printFrom d now i (s.buckets i))
  | .printRead d now i entry => do
      let node ← s.node entry
      if 0 < node.ttl - (now - node.timestamp) then return .printStrings d now i entry
      else return .printNext d now i entry
  | .printStrings d now i entry => do
      let node ← s.node entry
      let _ ← node.domainName
      let _ ← node.recordValue
      return .printNext d now i entry
  | .printNext d now i entry => do
      return printFrom d now i (← s.node entry).next
  | .cleanStart d => some (.cleanTest d clock ⟨0, by decide⟩)
  | .cleanTest d now i =>
      match s.buckets i with
      | some _ => some (.cleanHead d now i)
      | none => some (cleanFrom d now i none none)
  | .cleanHead d now i => some (cleanFrom d now i none (s.buckets i))
  | .cleanCheck d now i previous entry => do
      let node ← s.node entry
      if h : now - node.timestamp ≥ node.ttl then
        return .cleanPrint d i previous entry
          { now, timestamp := node.timestamp, ttl := node.ttl, expired := h }
      else return .cleanKeep d now i entry
  | .cleanKeep d now i entry => do
      return cleanFrom d now i (some entry) (← s.node entry).next
  | .cleanPrint d i previous entry test => do
      let _ ← (← s.node entry).domainName
      return .cleanRead d i previous entry test
  | .cleanRead d i previous entry test => do
      return .cleanUnlink d i previous entry (← s.node entry).next test
  | .cleanAdvance d i previous temp test => do
      return .cleanFreeDomain d i previous temp (← s.node temp).next test
  | .lookHead d => some (lookFrom d (s.buckets (hashFunction d)))
  | .lookCompare d entry => do
      let domainName ← (← s.node entry).domainName
      if domainName = d then return .lookTouch d entry else return .lookNext d entry
  | .lookNext d entry => do
      return lookFrom d (← s.node entry).next
  | .lookPrint d entry => do
      let node ← s.node entry
      let _ ← node.domainName
      let _ ← node.recordValue
      return .lookReturn d entry
  | .lookReturn d entry => do
      let _ ← s.node entry
      return .lookCopy d entry
  | .lookCopy _ entry => do
      let _ ← (← s.node entry).recordValue
      return .idle
  | _ => none

/-- What a step did: it put a node at the head of its bucket, it took one out, or neither. -/
inductive SharedEvent (κ : Type)
  | link (k : κ) (d : Bytes) (a : Nat)
  | unlink (k : κ) (i : Fin maxCache) (a : Nat) (test : ExpiredTest)
  | other (k : κ)

variable [DecidableEq κ]

def SharedCache.goTo (s : SharedCache κ) (k : κ) (phase : CachePhase) : SharedCache κ :=
  { s with workers := Function.update s.workers k phase }

def SharedCache.write (s : SharedCache κ) (a : Nat) (cell : Cell) : SharedCache κ :=
  { s with heap := Function.update s.heap a cell }

/-- One step of a worker. -/
inductive SharedStep : SharedCache κ → SharedEvent κ → SharedCache κ → Prop
  /-- The entry to add has just been made. -/
  | startAdd {s : SharedCache κ} {k : κ} {a : Nat} {d value : Bytes} (hat : s.workers k = .idle)
      (hunused : s.heap a = .unused) :
      SharedStep s (.other k)
        ((s.write a (.live { domainName := some d, recordValue := some value, ttl := 0
                             timestamp := 0, next := none })).goTo k (.addHead d a))
  | startLookup {s : SharedCache κ} {k : κ} {d : Bytes} {now : Int} (hat : s.workers k = .idle) :
      SharedStep s (.other k) (s.goTo k (.printHead d now ⟨0, by decide⟩))
  | read {s : SharedCache κ} {k : κ} {clock : Int} {phase : CachePhase}
      (hread : s.read clock (s.workers k) = some phase) : SharedStep s (.other k) (s.goTo k phase)
  | timestamp {s : SharedCache κ} {k : κ} {d : Bytes} {a : Nat} {node : CacheNode} {now : Int}
      (hat : s.workers k = .addTimestamp d a) (hnode : s.heap a = .live node) :
      SharedStep s (.other k)
        ((s.write a (.live { node with timestamp := now })).goTo k (.addTtl d a))
  | ttl {s : SharedCache κ} {k : κ} {d : Bytes} {a : Nat} {node : CacheNode}
      (hat : s.workers k = .addTtl d a) (hnode : s.heap a = .live node) :
      SharedStep s (.other k)
        ((s.write a (.live { node with ttl := ttlValueCache })).goTo k (.addReadHead d a))
  | setNext {s : SharedCache κ} {k : κ} {d : Bytes} {a : Nat} {next : Option Nat}
      {node : CacheNode} (hat : s.workers k = .addSetNext d a next)
      (hnode : s.heap a = .live node) :
      SharedStep s (.other k) ((s.write a (.live { node with next })).goTo k (.addLink d a))
  | link {s : SharedCache κ} {k : κ} {d : Bytes} {a : Nat} (hat : s.workers k = .addLink d a) :
      SharedStep s (.link k d a)
        { s.goTo k (.addPrint d a) with
          buckets := Function.update s.buckets (hashFunction d) (some a) }
  | unlinkHead {s : SharedCache κ} {k : κ} {d : Bytes} {i : Fin maxCache} {entry : Nat}
      {next : Option Nat} {test : ExpiredTest}
      (hat : s.workers k = .cleanUnlink d i none entry next test) :
      SharedStep s (.unlink k i entry test)
        { s.goTo k (.cleanAdvance d i none entry test) with
          buckets := Function.update s.buckets i next }
  | unlink {s : SharedCache κ} {k : κ} {d : Bytes} {i : Fin maxCache} {previous entry : Nat}
      {next : Option Nat} {test : ExpiredTest} {node : CacheNode}
      (hat : s.workers k = .cleanUnlink d i (some previous) entry next test)
      (hnode : s.heap previous = .live node) :
      SharedStep s (.unlink k i entry test)
        ((s.write previous (.live { node with next })).goTo k
          (.cleanAdvance d i (some previous) entry test))
  | freeDomain {s : SharedCache κ} {k : κ} {d : Bytes} {i : Fin maxCache}
      {previous entry : Option Nat} {temp : Nat} {test : ExpiredTest} {node : CacheNode}
      (hat : s.workers k = .cleanFreeDomain d i previous temp entry test)
      (hnode : s.heap temp = .live node) (hdomain : node.domainName ≠ none) :
      SharedStep s (.other k)
        ((s.write temp (.live { node with domainName := none })).goTo k
          (.cleanFreeRecord d i previous temp entry test))
  | freeRecord {s : SharedCache κ} {k : κ} {d : Bytes} {i : Fin maxCache}
      {previous entry : Option Nat} {temp : Nat} {test : ExpiredTest} {node : CacheNode}
      (hat : s.workers k = .cleanFreeRecord d i previous temp entry test)
      (hnode : s.heap temp = .live node) (hrecord : node.recordValue ≠ none) :
      SharedStep s (.other k)
        ((s.write temp (.live { node with recordValue := none })).goTo k
          (.cleanFreeNode d i previous temp entry test))
  | freeNode {s : SharedCache κ} {k : κ} {d : Bytes} {i : Fin maxCache}
      {previous entry : Option Nat} {temp : Nat} {test : ExpiredTest} {node : CacheNode}
      (hat : s.workers k = .cleanFreeNode d i previous temp entry test)
      (hnode : s.heap temp = .live node) :
      SharedStep s (.other k)
        ((s.write temp .freed).goTo k (cleanFrom d test.now i previous entry))
  | touch {s : SharedCache κ} {k : κ} {d : Bytes} {entry : Nat} {node : CacheNode} {now : Int}
      (hat : s.workers k = .lookTouch d entry) (hnode : s.heap entry = .live node) :
      SharedStep s (.other k)
        ((s.write entry (.live { node with timestamp := now })).goTo k (.lookPrint d entry))

/-- The cache has just been made, and no worker uses it. -/
structure SharedStart (s : SharedCache κ) : Prop where
  buckets : ∀ i, s.buckets i = none
  heap : ∀ a, s.heap a = .unused
  workers : ∀ k, s.workers k = .idle

end DnsServer
