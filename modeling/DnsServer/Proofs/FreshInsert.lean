/-
When an entry just added can be looked up.

The insertion asks whether the name is in its bucket, the lookup whether it is there
and has not lived its time.  A name whose entry has expired but has not been
collected is there for the one and not for the other: the new entry is refused, and
the next lookup collects the old one.

So an addition is seen exactly when the cache holds no entry for the name at all.
-/
import DnsServer.Proofs.Cache

namespace DnsServer

open Runs

variable {cache : DNSCache} {d : Bytes}

/-! ### Presence to the insertion, and presence to the lookup -/

/-- The insertion misses a name exactly when no entry anywhere has it. -/
theorem DNSCache.Inv.find_eq_none_iff (h : cache.Inv) :
    cache.find d = none ↔ ∀ e ∈ cache.entries, e.domainName ≠ d := by
  refine ⟨?_, ?_⟩
  · intro hfind e he hname
    obtain ⟨i, hi⟩ := HashTable.mem_entries.mp he
    have hfound : cache.find e.domainName = some e := h.valid.find_of_mem hi
    rw [hname, hfind] at hfound
    exact absurd hfound (by simp)
  · intro hall
    refine List.find?_eq_none.mpr fun e he => ?_
    simpa using hall e (HashTable.mem_entries.mpr ⟨_, he⟩)

/-- An addition for a name that is there changes nothing. -/
theorem addCacheEntry_present {entry : CacheEntry} (h : cache.find entry.domainName ≠ none)
    (now : Int) : addCacheEntry now cache entry = cache := by
  have hholds : bucketHolds entry.domainName (cache.buckets (hashFunction entry.domainName))
      = true := by
    rw [bucketHolds_eq]
    exact Option.isSome_iff_ne_none.mpr h
  unfold addCacheEntry
  exact if_pos hholds

/-! ### The addition -/

/--
**An addition is seen exactly when the cache held nothing under its name.**  After any calls,
at any time, for an entry whose name has no entry that is still fresh: every lookup before the
entry has lived its time returns its value, if and only if no entry for the name, expired or
not, is in the cache when it is added.
-/
theorem fresh_insertion_visible_iff (ops : List CacheOp) (t : Int) (entry : CacheEntry)
    (hnone : ¬ HoldsFresh (exec CacheOp.run initializeDNSCache ops).1 entry.domainName t) :
    (∀ cleanNow now, t ≤ cleanNow → cleanNow < t + ttlValueCache →
      (lookupDNSCache cleanNow now
        (addCacheEntry t (exec CacheOp.run initializeDNSCache ops).1 entry)
        entry.domainName).2 = some entry.recordValue) ↔
      ∀ e ∈ (exec CacheOp.run initializeDNSCache ops).1.entries,
        e.domainName ≠ entry.domainName := by
  have hinv : (exec CacheOp.run initializeDNSCache ops).1.Inv :=
    exec_inv (fun _ op h => h.run op) DNSCache.Inv.start ops
  rw [← hinv.find_eq_none_iff]
  refine ⟨?_, ?_⟩
  · intro hseen
    -- with an entry there, the addition does nothing and the lookup collects that entry
    by_contra hpresent
    have hanswer := hseen t t (Int.le_refl t) (by unfold ttlValueCache; omega)
    rw [addCacheEntry_present hpresent] at hanswer
    apply hnone
    apply lookup_ne_none_iff.mp
    rw [hanswer]
    exact Option.some_ne_none _
  · intro habsent cleanNow now hle hlt
    have hfind := find_add t (exec CacheOp.run initializeDNSCache ops).1 entry entry.domainName
    rw [if_pos rfl, habsent, Option.getD_none] at hfind
    refine lookup_fresh hfind ?_ now
    show cleanNow - t < ttlValueCache
    omega

/-- Two addresses are added, and the first has been collected when the second is looked up. -/
def collectingOps : List CacheOp :=
  [.add (dnsCreateNewEntry (ascii "example.com") (ascii "1.2.3.4")) 0,
    .add (dnsCreateNewEntry (ascii "example.org") (ascii "9.9.9.9")) 30,
    .lookup (ascii "example.org") 60 60]

/-- The first name is then added again. -/
theorem fresh_insertion_visible_collected :
    (exec CacheOp.run initializeDNSCache collectingOps).1.find (ascii "example.org") ≠ none ∧
    ∀ cleanNow now, 61 ≤ cleanNow → cleanNow < 61 + ttlValueCache →
      (lookupDNSCache cleanNow now
        (addCacheEntry 61 (exec CacheOp.run initializeDNSCache collectingOps).1
          (dnsCreateNewEntry (ascii "example.com") (ascii "5.6.7.8")))
        (ascii "example.com")).2 = some (ascii "5.6.7.8") := by
  have hinv : (exec CacheOp.run initializeDNSCache collectingOps).1.Inv :=
    exec_inv (fun _ op h => h.run op) DNSCache.Inv.start collectingOps
  have habsent : ∀ e ∈ (exec CacheOp.run initializeDNSCache collectingOps).1.entries,
      e.domainName ≠ ascii "example.com" := hinv.find_eq_none_iff.mp rfl
  have hnone : ¬ HoldsFresh (exec CacheOp.run initializeDNSCache collectingOps).1
      (ascii "example.com") 61 :=
    fun h => lookup_ne_none_iff.mpr h (show (lookupDNSCache 61 61 _ _).2 = none by decide)
  exact ⟨by decide, (fresh_insertion_visible_iff collectingOps 61
    (dnsCreateNewEntry (ascii "example.com") (ascii "5.6.7.8")) hnone).mpr habsent⟩

/-- An address added at 0 has expired at 60: another one added then is refused, and at 61
neither is found. -/
theorem stale_entry_hides_insertion : ∃ (ops : List CacheOp) (entry : CacheEntry),
    ¬ HoldsFresh (exec CacheOp.run initializeDNSCache ops).1 entry.domainName 60 ∧
    (61 : Int) < 60 + ttlValueCache ∧
    (lookupDNSCache 61 61 (addCacheEntry 60 (exec CacheOp.run initializeDNSCache ops).1 entry)
      entry.domainName).2 = none := by
  refine ⟨[.add (dnsCreateNewEntry (ascii "example.com") (ascii "1.2.3.4")) 0],
    dnsCreateNewEntry (ascii "example.com") (ascii "5.6.7.8"), ?_, by decide, by decide⟩
  intro h
  exact lookup_ne_none_iff.mpr h (show (lookupDNSCache 60 60 _ _).2 = none by decide)

end DnsServer
