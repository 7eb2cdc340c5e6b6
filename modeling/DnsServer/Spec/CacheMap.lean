/-
What the cache is for.

A map from domains to a value and the time it was last touched.  A binding lives
fifty seconds from its last touch; looking a domain up touches it, and adding a
domain that is bound does nothing.
-/
import DnsServer.Code.Cache
import DnsServer.Lib.FiniteMap

namespace DnsServer

/-- Each cached domain's value, and when it was last touched. -/
abbrev CacheMap := FiniteMap Bytes (Bytes × Int)

namespace CacheMap

/-- The binding has not lived its time at `now`. -/
def fresh (now : Int) (binding : Bytes × Int) : Bool := decide (¬ now - binding.2 ≥ 50)

def cleanUp (now : Int) (m : CacheMap) : CacheMap := m.keep (fresh now)

def lookup (cleanNow now : Int) (m : CacheMap) (domain : Bytes) : CacheMap × Option Bytes :=
  let m := m.cleanUp cleanNow
  match m.get domain with
  | none => (m, none)
  | some (value, _) => (m.set domain (value, now), some value)

def add (now : Int) (m : CacheMap) (domain value : Bytes) : CacheMap :=
  m.bindNew domain (value, now)

end CacheMap

/-! ### Sequences of calls -/

/-- A call to the cache. -/
inductive CacheOp
  | start
  | add (entry : CacheEntry) (now : Int)
  | lookup (domainName : Bytes) (cleanNow now : Int)
  | cleanUp (now : Int)

/-- The call as the code makes it, and the value it returns, if it returns one. -/
def CacheOp.run (cache : DNSCache) : CacheOp → DNSCache × Option Bytes
  | start => (initializeDNSCache, none)
  | add entry now => (addCacheEntry now cache entry, none)
  | lookup domainName cleanNow now => lookupDNSCache cleanNow now cache domainName
  | cleanUp now => (dnsCacheCleanUp now cache, none)

/-- The call on the map. -/
def CacheOp.apply (m : CacheMap) : CacheOp → CacheMap × Option Bytes
  | start => (FiniteMap.empty, none)
  | add entry now => (m.add now entry.domainName entry.recordValue, none)
  | lookup domainName cleanNow now => m.lookup cleanNow now domainName
  | cleanUp now => (m.cleanUp now, none)

end DnsServer
