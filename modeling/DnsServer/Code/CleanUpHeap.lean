/-
The cleaning of the cache, on the heap.

`DNSCacheCleanUp` unlinks an expired entry by a write to the `next` field of the entry
before it, or to the bucket where there is none before it, and then frees what the
entry was made of: its two strings and itself.  An address names an allocation, and
`frees` lists the addresses given to `free`, in order.

To read or write what is not allocated is undefined, and so is to free it; what has
been freed is not allocated any more.
-/
import DnsServer.Code.Cache
import DnsServer.Lib.Loop

namespace DnsServer

/-- A `CacheEntry`; its strings are allocations of their own. -/
structure HeapEntry where
  domainName : Nat
  recordValue : Nat
  ttl : Int
  timestamp : Int
  next : Option Nat
  deriving DecidableEq, Repr

/-- What is at an address. -/
inductive Block
  | unused
  | entry (fields : HeapEntry)
  | string (bytes : Bytes)
  | freed
  deriving DecidableEq, Repr

namespace Block

def asEntry : Block → Option HeapEntry
  | .entry fields => some fields
  | _ => none

def asString : Block → Option Bytes
  | .string bytes => some bytes
  | _ => none

end Block

structure CacheHeap where
  buckets : Fin maxCache → Option Nat
  blocks : Nat → Block
  frees : List Nat

namespace CacheHeap

def read (s : CacheHeap) (a : Nat) : Call HeapEntry :=
  match (s.blocks a).asEntry with
  | some fields => .done fields
  | none => .undefined

def readString (s : CacheHeap) (a : Nat) : Call Bytes :=
  match (s.blocks a).asString with
  | some bytes => .done bytes
  | none => .undefined

/-- The block of an address is another, and nothing else is. -/
def put (s : CacheHeap) (a : Nat) (block : Block) : CacheHeap :=
  { s with blocks := Function.update s.blocks a block }

/-- The address is free again, and `free` has been called for it. -/
def release (s : CacheHeap) (a : Nat) : CacheHeap :=
  { s.put a .freed with frees := s.frees ++ [a] }

def free (s : CacheHeap) (a : Nat) : Call CacheHeap :=
  match s.blocks a with
  | .entry _ => .done (s.release a)
  | .string _ => .done (s.release a)
  | .unused => .undefined
  | .freed => .undefined

/-- `cache->buckets[i] = next` or `previous->next = next`. -/
def unlink (s : CacheHeap) (i : Fin maxCache) (previous next : Option Nat) : Call CacheHeap :=
  match previous with
  | none => .done { s with buckets := Function.update s.buckets i next }
  | some previous => do
      let fields ← s.read previous
      return s.put previous (.entry { fields with next })

/-- `free` of the strings of an entry and of the entry. -/
def freeEntry (s : CacheHeap) (temp : Nat) : Call CacheHeap := do
  let s ← s.free (← s.read temp).domainName
  let s ← s.free (← s.read temp).recordValue
  s.free temp

/-- `while (entry != NULL)`. -/
def cleanUpChain (now : Int) (i : Fin maxCache) :
    Nat → CacheHeap → Option Nat → Option Nat → Call CacheHeap
  | 0, _, _, _ => .running
  | _ + 1, s, _, none => .done s
  | fuel + 1, s, previous, some entry => do
      let fields ← s.read entry
      if now - fields.timestamp ≥ fields.ttl then
        -- the line that is printed
        let _ ← s.readString fields.domainName
        let s ← s.unlink i previous fields.next
        let next := (← s.read entry).next
        let s ← s.freeEntry entry
        cleanUpChain now i fuel s previous next
      else cleanUpChain now i fuel s (some entry) fields.next

def dnsCacheCleanUp (fuel : Nat) (now : Int) (s : CacheHeap) : Call CacheHeap :=
  (List.finRange maxCache).foldlM (fun s i => cleanUpChain now i fuel s none (s.buckets i)) s

end CacheHeap

end DnsServer
