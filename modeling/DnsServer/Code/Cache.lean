/-
The cache, as `cache.c` keeps it.

A hundred buckets, each a list of entries linked through `next`; a new entry goes
to the head.  Nothing is timed but by `time(NULL)`, so every reading of the clock
is an argument: a lookup takes two, one for the cleaning it starts with and one
for the entry it touches.  A domain is a C string, the bytes before its NUL.

What `printDNSCache` prints on the way changes nothing here; it is in
`Code/CacheMemory.lean`.
-/
import DnsServer.Code.Memory
import Mathlib.Logic.Function.Basic

namespace DnsServer

/-- `MAX_CACHE`. -/
def maxCache : Nat := 100

/-- `TTL_VALUE_CACHE`, in seconds. -/
def ttlValueCache : Int := 50

structure CacheEntry where
  domainName : Bytes
  recordValue : Bytes
  ttl : Int
  timestamp : Int
  deriving DecidableEq, Repr

structure DNSCache where
  buckets : Fin maxCache → List CacheEntry

def initializeDNSCache : DNSCache := { buckets := fun _ => [] }

/-- One character of the hash: a `char` is signed, so it is extended by its sign. -/
def hashStep (hash : UInt32) (c : UInt8) : UInt32 :=
  ((hash <<< 5) + hash) + UInt32.ofBitVec (c.toBitVec.signExtend 32)

def hashFunction (domainName : Bytes) : Fin maxCache :=
  ⟨(domainName.foldl hashStep 5381).toNat % maxCache, Nat.mod_lt _ (by decide)⟩

/-- The entry `dns_createNewEntry` fills; its times are set when it is added. -/
def dnsCreateNewEntry (domainName ipAddress : Bytes) : CacheEntry :=
  { domainName, recordValue := ipAddress, ttl := 0, timestamp := 0 }

/-- The loop that looks for a domain in its bucket before an entry is added. -/
def bucketHolds (domainName : Bytes) : List CacheEntry → Bool
  | [] => false
  | head :: next => if head.domainName = domainName then true else bucketHolds domainName next

def addCacheEntry (now : Int) (cache : DNSCache) (cacheEntry : CacheEntry) : DNSCache :=
  let hashIndex := hashFunction cacheEntry.domainName
  if bucketHolds cacheEntry.domainName (cache.buckets hashIndex) then cache
  else
    let cacheEntry := { cacheEntry with timestamp := now, ttl := ttlValueCache }
    { buckets :=
        Function.update cache.buckets hashIndex (cacheEntry :: cache.buckets hashIndex) }

/-- The inner loop of the cleaning: entries that have lived their time are unlinked. -/
def cleanUpBucket (now : Int) : List CacheEntry → List CacheEntry
  | [] => []
  | entry :: next =>
      if now - entry.timestamp ≥ entry.ttl then cleanUpBucket now next
      else entry :: cleanUpBucket now next

def dnsCacheCleanUp (now : Int) (cache : DNSCache) : DNSCache :=
  { buckets := fun i => cleanUpBucket now (cache.buckets i) }

/-- The loop of the lookup: the bucket with the entry touched, and its value. -/
def lookupBucket (now : Int) (domainName : Bytes) :
    List CacheEntry → Option (List CacheEntry × Bytes)
  | [] => none
  | entry :: next =>
      if entry.domainName = domainName then
        some ({ entry with timestamp := now } :: next, entry.recordValue)
      else (lookupBucket now domainName next).map fun found => (entry :: found.1, found.2)

/-- `cleanNow` is the clock when the lookup cleans up, `now` when it touches the entry. -/
def lookupDNSCache (cleanNow now : Int) (cache : DNSCache) (domainName : Bytes) :
    DNSCache × Option Bytes :=
  let cache := dnsCacheCleanUp cleanNow cache
  let hashIndex := hashFunction domainName
  match lookupBucket now domainName (cache.buckets hashIndex) with
  | none => (cache, none)
  | some (bucket, recordValue) =>
      ({ buckets := Function.update cache.buckets hashIndex bucket }, some recordValue)

end DnsServer
