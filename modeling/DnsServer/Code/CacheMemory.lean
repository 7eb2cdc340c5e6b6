/-
The rest of the cache, on the heap.

`dns_createNewEntry` allocates an entry and its two strings, `addCacheEntry` follows the
bucket and links the entry at its head, `lookupDNSCache` prints, cleans, follows the
bucket and gives out a pointer into the entry it touches, and `printDNSCache` reads
every entry.  All of it is by address, on the heap the cleaning works on.

`malloc` gives out addresses in order and none of them twice.  `cache.c` writes through
what it is given without looking, so an allocation that fails is left out.  The lines
`printDNSCache` prints are a value here; so is what `addCacheEntry` says it did.
-/
import DnsServer.Code.CleanUpHeap
import DnsServer.Lib.Calls
import DnsServer.Lib.Ledger

namespace DnsServer

/-! ### Printing -/

/-- A line of `printDNSCache`. -/
structure CacheLine where
  domainName : Bytes
  recordValue : Bytes
  timeLeft : Int
  deriving DecidableEq, Repr

/-- The line of an entry, if it has one. -/
def cacheLine (now : Int) (entry : CacheEntry) : Option CacheLine :=
  let timeLeft := entry.ttl - (now - entry.timestamp)
  if timeLeft > 0 then
    some { domainName := entry.domainName, recordValue := entry.recordValue, timeLeft }
  else none

def printDNSCache (now : Int) (cache : DNSCache) : List CacheLine :=
  (List.finRange maxCache).flatMap fun i => (cache.buckets i).filterMap (cacheLine now)

/-! ### On the heap -/

namespace CacheHeap

/-- `while (head)`: an entry for the domain is there. -/
def bucketHolds (s : CacheHeap) (domainName : Bytes) : Nat → Option Nat → Call Bool
  | 0, _ => .running
  | _ + 1, none => .done false
  | fuel + 1, some head => do
      let fields ← s.read head
      let headName ← s.readString fields.domainName
      if headName = domainName then return true
      else bucketHolds s domainName fuel fields.next

/-- The entry's fields are written, its link the head of the bucket, and it is the head. -/
def link (s : CacheHeap) (i : Fin maxCache) (a : Nat) (fields : HeapEntry) : CacheHeap :=
  { s.put a (.entry { fields with next := s.buckets i }) with
    buckets := Function.update s.buckets i (some a) }

/-- The heap, and whether the entry was inserted. -/
def addCacheEntry (fuel : Nat) (now : Int) (s : CacheHeap) (cacheEntry : Nat) :
    Call (CacheHeap × Bool) := do
  let fields ← s.read cacheEntry
  let domainName ← s.readString fields.domainName
  let hashIndex := hashFunction domainName
  if ← s.bucketHolds domainName fuel (s.buckets hashIndex) then return (s, false)
  else
    let s := s.link hashIndex cacheEntry { fields with timestamp := now, ttl := ttlValueCache }
    -- the line that is printed
    let _ ← s.readString fields.domainName
    let _ ← s.readString fields.recordValue
    return (s, true)

/-- `while (entry != NULL)` in `lookupDNSCache`: the record value's address. -/
def lookupChain (s : CacheHeap) (now : Int) (domainName : Bytes) :
    Nat → Option Nat → Call (CacheHeap × Option Nat)
  | 0, _ => .running
  | _ + 1, none => .done (s, none)
  | fuel + 1, some entry => do
      let fields ← s.read entry
      let entryName ← s.readString fields.domainName
      if entryName = domainName then
        let s := s.put entry (.entry { fields with timestamp := now })
        -- the line that is printed
        let _ ← s.readString fields.domainName
        let _ ← s.readString fields.recordValue
        return (s, some fields.recordValue)
      else lookupChain s now domainName fuel fields.next

/-- `while (entry != NULL)` in `printDNSCache`. -/
def printChain (s : CacheHeap) (now : Int) : Nat → Option Nat → Call (List CacheLine)
  | 0, _ => .running
  | _ + 1, none => .done []
  | fuel + 1, some entry => do
      let fields ← s.read entry
      let timeLeft := fields.ttl - (now - fields.timestamp)
      if timeLeft > 0 then
        let domainName ← s.readString fields.domainName
        let recordValue ← s.readString fields.recordValue
        let lines ← printChain s now fuel fields.next
        return { domainName, recordValue, timeLeft } :: lines
      else printChain s now fuel fields.next

def printDNSCache (fuel : Nat) (now : Int) (s : CacheHeap) : Call (List CacheLine) :=
  (List.finRange maxCache).foldlM
    (fun lines i => do return lines ++ (← s.printChain now fuel (s.buckets i))) []

/-- The heap, the lines printed, and the record value's address. -/
def lookupDNSCache (fuel : Nat) (printNow cleanNow now : Int) (s : CacheHeap)
    (domainName : Bytes) : Call (CacheHeap × List CacheLine × Option Nat) := do
  let lines ← s.printDNSCache fuel printNow
  let s ← dnsCacheCleanUp fuel cleanNow s
  let (s, recordValue) ←
    s.lookupChain now domainName fuel (s.buckets (hashFunction domainName))
  return (s, lines, recordValue)

/-- The string behind a pointer that may be null. -/
def readValue (s : CacheHeap) : Option Nat → Call (Option Bytes)
  | none => .done none
  | some a => do return some (← s.readString a)

end CacheHeap

/-! ### Allocating -/

structure CacheMemory where
  heap : CacheHeap
  /-- The address the next allocation gets. -/
  fresh : Nat

namespace CacheMemory

/-- What the allocator has given out and taken back. -/
def ledger (m : CacheMemory) : Ledger := { issued := m.fresh, freed := m.heap.frees }

/-- The block's address, and the memory with it. -/
def malloc (m : CacheMemory) (block : Block) : Nat × CacheMemory :=
  (m.fresh, { heap := m.heap.put m.fresh block, fresh := m.fresh + 1 })

/-- An entry, the copy of its domain and the copy of its value, allocated in this order. -/
def newEntry (m : CacheMemory) (entry : CacheEntry) : Nat × CacheMemory :=
  let (a, m) := m.malloc (.entry
    { domainName := m.fresh + 1, recordValue := m.fresh + 2, ttl := entry.ttl
      timestamp := entry.timestamp, next := none })
  let (_, m) := m.malloc (.string entry.domainName)
  let (_, m) := m.malloc (.string entry.recordValue)
  (a, m)

def dnsCreateNewEntry (m : CacheMemory) (domainName ipAddress : Bytes) : Nat × CacheMemory :=
  m.newEntry (DnsServer.dnsCreateNewEntry domainName ipAddress)

/-- The memory after `initializeDNSCache`; the cache itself is never freed while it is used. -/
def initializeDNSCache : CacheMemory :=
  { heap := { buckets := fun _ => none, blocks := fun _ => .unused, frees := [] }, fresh := 0 }

def addCacheEntry (fuel : Nat) (now : Int) (m : CacheMemory) (cacheEntry : Nat) :
    Call (CacheMemory × Bool) := do
  let (heap, inserted) ← m.heap.addCacheEntry fuel now cacheEntry
  return ({ m with heap }, inserted)

/-- The memory, and the lines printed and the record value's address. -/
def lookupDNSCache (fuel : Nat) (printNow cleanNow now : Int) (m : CacheMemory)
    (domainName : Bytes) : Call (CacheMemory × List CacheLine × Option Nat) := do
  let (heap, lines, recordValue) ← m.heap.lookupDNSCache fuel printNow cleanNow now domainName
  return ({ m with heap }, lines, recordValue)

def dnsCacheCleanUp (fuel : Nat) (now : Int) (m : CacheMemory) : Call CacheMemory := do
  return { m with heap := ← CacheHeap.dnsCacheCleanUp fuel now m.heap }

end CacheMemory

/-! ### Sequences of calls -/

/-- A call to the cache; an entry that is added has just been made. -/
inductive CacheCall
  | add (domainName ipAddress : Bytes) (now : Int)
  | lookup (domainName : Bytes) (printNow cleanNow now : Int)
  | cleanUp (now : Int)
  | print (now : Int)

/-- What a call shows of the cache. -/
inductive CacheAnswer
  | inserted
  | alreadyExists
  | lookedUp (lines : List CacheLine) (recordValue : Option Bytes)
  | cleaned
  | printed (lines : List CacheLine)
  deriving DecidableEq, Repr

/-- The call by address; what a lookup points to is read at once. -/
def CacheCall.runHeap (fuel : Nat) (m : CacheMemory) :
    CacheCall → Call (CacheMemory × CacheAnswer)
  | add domainName ipAddress now => do
      let (cacheEntry, m) := m.dnsCreateNewEntry domainName ipAddress
      let (m, inserted) ← m.addCacheEntry fuel now cacheEntry
      return (m, if inserted then .inserted else .alreadyExists)
  | lookup domainName printNow cleanNow now => do
      let (m, lines, recordValue) ← m.lookupDNSCache fuel printNow cleanNow now domainName
      return (m, .lookedUp lines (← m.heap.readValue recordValue))
  | cleanUp now => do return (← m.dnsCacheCleanUp fuel now, .cleaned)
  | print now => do return (m, .printed (← m.heap.printDNSCache fuel now))

/-- The call on the lists of entries. -/
def CacheCall.run (cache : DNSCache) : CacheCall → DNSCache × CacheAnswer
  | add domainName ipAddress now =>
      (addCacheEntry now cache (dnsCreateNewEntry domainName ipAddress),
        if bucketHolds domainName (cache.buckets (hashFunction domainName)) then .alreadyExists
        else .inserted)
  | lookup domainName printNow cleanNow now =>
      let (after, recordValue) := lookupDNSCache cleanNow now cache domainName
      (after, .lookedUp (printDNSCache printNow cache) recordValue)
  | cleanUp now => (dnsCacheCleanUp now cache, .cleaned)
  | print now => (cache, .printed (printDNSCache now cache))

end DnsServer
