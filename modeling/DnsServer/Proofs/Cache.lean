/-
The cache is a map.

Its three loops are the library's three operations on a table: the insertion at
the head of a bucket, the filter of every bucket, and the change to the entry of
one key.  What is left to say is that the time to live every entry carries is the
one the map uses, which holds because only `addCacheEntry` sets it.
-/
import DnsServer.Spec.CacheMap
import DnsServer.Lib.HashTable
import DnsServer.Lib.Runs

namespace DnsServer

open Runs

/-! ### The loops -/

theorem bucketHolds_eq (domainName : Bytes) (bucket : List CacheEntry) :
    bucketHolds domainName bucket
      = (bucket.find? (fun e => e.domainName = domainName)).isSome := by
  induction bucket with
  | nil => rfl
  | cons head next ih =>
      unfold bucketHolds
      by_cases h : head.domainName = domainName
      · simp [h]
      · simp [h, ih]

theorem cleanUpBucket_eq (now : Int) (bucket : List CacheEntry) :
    cleanUpBucket now bucket = bucket.filter (fun e => ¬ now - e.timestamp ≥ e.ttl) := by
  induction bucket with
  | nil => rfl
  | cons entry next ih =>
      unfold cleanUpBucket
      by_cases h : now - entry.timestamp ≥ entry.ttl
      · rw [if_pos h, ih, List.filter_cons_of_neg (by simpa using h)]
      · rw [if_neg h, ih, List.filter_cons_of_pos (by simpa using h)]

/-- The entry with the time of its touch. -/
def CacheEntry.touch (now : Int) (entry : CacheEntry) : CacheEntry :=
  { entry with timestamp := now }

theorem CacheEntry.domainName_touch (now : Int) (entry : CacheEntry) :
    (entry.touch now).domainName = entry.domainName := rfl

theorem lookupBucket_eq (now : Int) (domainName : Bytes) (bucket : List CacheEntry) :
    lookupBucket now domainName bucket
      = (bucket.find? (fun e => e.domainName = domainName)).map fun entry =>
          (HashTable.modifyFirst CacheEntry.domainName domainName (CacheEntry.touch now) bucket,
            entry.recordValue) := by
  induction bucket with
  | nil => rfl
  | cons entry next ih =>
      unfold lookupBucket HashTable.modifyFirst
      by_cases h : entry.domainName = domainName
      · simp [h, CacheEntry.touch]
      · rw [if_neg h, if_neg h, ih, List.find?_cons_of_neg (by simpa using h), Option.map_map]
        rfl

/-! ### The operations, as the library's -/

namespace DNSCache

variable (cache : DNSCache)

/-- The entry of a domain. -/
def find (domainName : Bytes) : Option CacheEntry :=
  HashTable.find CacheEntry.domainName hashFunction cache.buckets domainName

/-- All entries, bucket by bucket. -/
def entries : List CacheEntry := HashTable.entries cache.buckets

/-- The map the cache stands for. -/
def toMap : CacheMap :=
  HashTable.toMap CacheEntry.domainName hashFunction
    (fun entry => (entry.recordValue, entry.timestamp)) cache.buckets

/-- Every entry is in its bucket, no bucket holds a domain twice, and every entry has the
same time to live. -/
structure Inv : Prop where
  valid : HashTable.Valid CacheEntry.domainName hashFunction cache.buckets
  ttl : ∀ i, ∀ entry ∈ cache.buckets i, entry.ttl = ttlValueCache

@[simp] theorem get_toMap (domainName : Bytes) :
    cache.toMap.get domainName
      = (cache.find domainName).map fun entry => (entry.recordValue, entry.timestamp) :=
  HashTable.get_toMap _ _ _

end DNSCache

/-- The entry as it is put in its bucket. -/
def CacheEntry.added (now : Int) (entry : CacheEntry) : CacheEntry :=
  { entry with timestamp := now, ttl := ttlValueCache }

theorem addCacheEntry_buckets (now : Int) (cache : DNSCache) (entry : CacheEntry) :
    (addCacheEntry now cache entry).buckets
      = HashTable.insertNew CacheEntry.domainName hashFunction (entry.added now)
          cache.buckets := by
  simp only [addCacheEntry, bucketHolds_eq]
  show (if (cache.find entry.domainName).isSome = true then _ else _ : DNSCache).buckets
    = if (cache.find entry.domainName).isSome = true then _ else _
  split <;> rfl

theorem dnsCacheCleanUp_buckets (now : Int) (cache : DNSCache) :
    (dnsCacheCleanUp now cache).buckets
      = HashTable.keep (fun e => ¬ now - e.timestamp ≥ e.ttl) cache.buckets :=
  funext fun i => cleanUpBucket_eq now (cache.buckets i)

theorem lookupDNSCache_eq (cleanNow now : Int) (cache : DNSCache) (domainName : Bytes) :
    (lookupDNSCache cleanNow now cache domainName).2
        = ((dnsCacheCleanUp cleanNow cache).find domainName).map CacheEntry.recordValue ∧
      (lookupDNSCache cleanNow now cache domainName).1.buckets
        = HashTable.modify CacheEntry.domainName hashFunction domainName (CacheEntry.touch now)
            (dnsCacheCleanUp cleanNow cache).buckets := by
  simp only [lookupDNSCache, lookupBucket_eq]
  rcases hfind : (dnsCacheCleanUp cleanNow cache).find domainName with _ | entry
  · rw [HashTable.modify_of_not_found hfind, show List.find? _ _ = _ from hfind]
    exact ⟨rfl, rfl⟩
  · rw [show List.find? _ _ = _ from hfind]
    exact ⟨rfl, rfl⟩

/-! ### What is found after each operation -/

theorem find_add (now : Int) (cache : DNSCache) (entry : CacheEntry) (domainName : Bytes) :
    (addCacheEntry now cache entry).find domainName
      = if domainName = entry.domainName then
          some ((cache.find domainName).getD (entry.added now))
        else cache.find domainName := by
  unfold DNSCache.find
  rw [addCacheEntry_buckets]
  exact HashTable.find_insertNew _ _ domainName

theorem find_cleanUp {cache : DNSCache} (h : cache.Inv) (now : Int) (domainName : Bytes) :
    (dnsCacheCleanUp now cache).find domainName
      = (cache.find domainName).filter (fun e => ¬ now - e.timestamp ≥ 50) := by
  unfold DNSCache.find
  rw [dnsCacheCleanUp_buckets, HashTable.find_keep h.valid]
  rcases hfind : HashTable.find _ hashFunction cache.buckets domainName with _ | e
  · rfl
  · have httl : e.ttl = 50 := h.ttl _ e (HashTable.find_eq_some hfind).1
    rw [Option.filter_some, Option.filter_some, httl]

/-- A name that is not in the cache is not brought there by cleaning it. -/
theorem find_cleanUp_none {cache : DNSCache} {d : Bytes} (now : Int) (h : cache.find d = none) :
    (dnsCacheCleanUp now cache).find d = none := by
  unfold DNSCache.find
  rw [dnsCacheCleanUp_buckets]
  exact HashTable.find_keep_none h

/-- An entry that has not lived its time is still found when the cache has been cleaned. -/
theorem find_cleanUp_fresh {cache : DNSCache} {d : Bytes} {e : CacheEntry} {now : Int}
    (h : cache.find d = some e) (hfresh : now - e.timestamp < e.ttl) :
    (dnsCacheCleanUp now cache).find d = some e := by
  unfold DNSCache.find
  rw [dnsCacheCleanUp_buckets]
  exact HashTable.find_keep_some h (by simpa using hfresh)

theorem find_lookup (cleanNow now : Int) (cache : DNSCache) (domainName d : Bytes) :
    (lookupDNSCache cleanNow now cache domainName).1.find d
      = if d = domainName then
          ((dnsCacheCleanUp cleanNow cache).find d).map (CacheEntry.touch now)
        else (dnsCacheCleanUp cleanNow cache).find d := by
  unfold DNSCache.find
  rw [(lookupDNSCache_eq cleanNow now cache domainName).2]
  exact HashTable.find_modify (CacheEntry.domainName_touch now) _ domainName d

/-! ### What a lookup finds -/

section Lookup

variable {cache cache' : DNSCache} {d : Bytes}

/-- A lookup answers with the value of an entry that has not lived its time. -/
theorem lookup_fresh {e : CacheEntry} {cleanNow : Int} (hfind : cache.find d = some e)
    (hfresh : cleanNow - e.timestamp < e.ttl) (now : Int) :
    (lookupDNSCache cleanNow now cache d).2 = some e.recordValue := by
  rw [(lookupDNSCache_eq cleanNow now cache d).1, find_cleanUp_fresh hfind hfresh]
  rfl

/-- A name that is not in the cache is not found there. -/
theorem lookup_absent (hfind : cache.find d = none) (cleanNow now : Int) :
    (lookupDNSCache cleanNow now cache d).2 = none := by
  rw [(lookupDNSCache_eq cleanNow now cache d).1, find_cleanUp_none cleanNow hfind]
  rfl

/-- No lookup brings a name into the cache. -/
theorem find_lookup_absent (hfind : cache.find d = none) (cleanNow now : Int)
    (domainName : Bytes) : (lookupDNSCache cleanNow now cache domainName).1.find d = none := by
  rw [find_lookup, find_cleanUp_none cleanNow hfind]
  split
  · rfl
  · rfl

/-- A name a lookup did not find is not in the cache it leaves. -/
theorem find_of_lookup_none {cleanNow now : Int}
    (h : lookupDNSCache cleanNow now cache d = (cache', none)) : cache'.find d = none := by
  have hclean : (dnsCacheCleanUp cleanNow cache).find d = none := by
    have hanswer := (lookupDNSCache_eq cleanNow now cache d).1
    rw [h] at hanswer
    exact Option.map_eq_none_iff.mp hanswer.symm
  have hleft := find_lookup cleanNow now cache d d
  rw [h, if_pos rfl, hclean] at hleft
  exact hleft

/-- A name a lookup found is in the cache it leaves, with the value found. -/
theorem find_of_lookup_some {cleanNow now : Int} {value : Bytes}
    (h : lookupDNSCache cleanNow now cache d = (cache', some value)) :
    ∃ e, cache'.find d = some e ∧ e.recordValue = value ∧ e.timestamp = now := by
  obtain ⟨e, he, hvalue⟩ : ∃ e, (dnsCacheCleanUp cleanNow cache).find d = some e ∧
      e.recordValue = value := by
    have hanswer := (lookupDNSCache_eq cleanNow now cache d).1
    rw [h] at hanswer
    exact Option.map_eq_some_iff.mp hanswer.symm
  have hleft := find_lookup cleanNow now cache d d
  rw [h, if_pos rfl, he] at hleft
  exact ⟨e.touch now, hleft, hvalue, rfl⟩

/-- A lookup that finds nothing leaves the cache cleaned. -/
theorem lookup_none_leaves {cleanNow now : Int}
    (h : lookupDNSCache cleanNow now cache d = (cache', none)) :
    cache' = dnsCacheCleanUp cleanNow cache := by
  unfold lookupDNSCache at h
  dsimp only at h
  rcases hbucket : lookupBucket now d ((dnsCacheCleanUp cleanNow cache).buckets (hashFunction d))
    with _ | ⟨bucket, value⟩
  · rw [hbucket] at h
    simp only [Prod.mk.injEq, and_true] at h
    exact h.symm
  · rw [hbucket] at h
    simp at h

/-- The cache holds an entry for the name that has not lived its time. -/
def HoldsFresh (cache : DNSCache) (d : Bytes) (now : Int) : Prop :=
  ∃ e ∈ cache.buckets (hashFunction d), e.domainName = d ∧ now - e.timestamp < e.ttl

theorem lookup_ne_none_iff {cleanNow now : Int} :
    (lookupDNSCache cleanNow now cache d).2 ≠ none ↔ HoldsFresh cache d cleanNow := by
  rw [(lookupDNSCache_eq cleanNow now cache d).1, ne_eq, Option.map_eq_none_iff, ← ne_eq,
    Option.ne_none_iff_exists']
  unfold DNSCache.find
  rw [dnsCacheCleanUp_buckets]
  refine ⟨?_, ?_⟩
  · intro h
    obtain ⟨e, he⟩ := h
    obtain ⟨hmem, hname⟩ := HashTable.find_eq_some he
    obtain ⟨hmem, hfresh⟩ := List.mem_filter.mp hmem
    exact ⟨e, hmem, hname, by simpa using hfresh⟩
  · intro h
    obtain ⟨e, hmem, hname, hfresh⟩ := h
    refine Option.isSome_iff_exists.mp (List.find?_isSome.mpr ⟨e, ?_, by simpa using hname⟩)
    exact List.mem_filter.mpr ⟨hmem, by simpa using hfresh⟩

end Lookup

/-! ### The invariant -/

namespace DNSCache.Inv

theorem start : (initializeDNSCache).Inv :=
  ⟨HashTable.valid_empty, fun i entry h => by simp [initializeDNSCache] at h⟩

variable {cache : DNSCache}

theorem add (h : cache.Inv) (now : Int) (entry : CacheEntry) :
    (addCacheEntry now cache entry).Inv := by
  refine ⟨?_, ?_⟩
  · rw [addCacheEntry_buckets]
    exact h.valid.insertNew _
  · intro i e he
    rw [addCacheEntry_buckets] at he
    rcases HashTable.mem_insertNew he with rfl | hold
    · rfl
    · exact h.ttl i e hold

theorem cleanUp (h : cache.Inv) (now : Int) : (dnsCacheCleanUp now cache).Inv := by
  refine ⟨?_, ?_⟩
  · rw [dnsCacheCleanUp_buckets]
    exact h.valid.keep _
  · intro i e he
    rw [dnsCacheCleanUp_buckets] at he
    exact h.ttl i e (List.mem_filter.mp he).1

theorem lookup (h : cache.Inv) (cleanNow now : Int) (domainName : Bytes) :
    (lookupDNSCache cleanNow now cache domainName).1.Inv := by
  have hclean := h.cleanUp cleanNow
  refine ⟨?_, ?_⟩
  · rw [(lookupDNSCache_eq cleanNow now cache domainName).2]
    exact hclean.valid.modify (CacheEntry.domainName_touch now) domainName
  · intro i e he
    rw [(lookupDNSCache_eq cleanNow now cache domainName).2] at he
    rcases HashTable.mem_modify he with hold | ⟨e', he', -, rfl⟩
    · exact hclean.ttl i e hold
    · exact hclean.ttl i e' he'

theorem run (h : cache.Inv) (op : CacheOp) : (op.run cache).1.Inv := by
  rcases op with _ | ⟨entry, now⟩ | ⟨domainName, cleanNow, now⟩ | now
  · exact start
  · exact h.add now entry
  · exact h.lookup cleanNow now domainName
  · exact h.cleanUp now

end DNSCache.Inv

/-! ### Each call is the call on the map -/

variable {cache : DNSCache}

theorem toMap_start : (initializeDNSCache).toMap = FiniteMap.empty :=
  FiniteMap.ext fun _ => rfl

theorem toMap_add (now : Int) (entry : CacheEntry) :
    (addCacheEntry now cache entry).toMap
      = cache.toMap.add now entry.domainName entry.recordValue := by
  refine FiniteMap.ext fun d => ?_
  rw [DNSCache.get_toMap, find_add, CacheMap.add, FiniteMap.get_bindNew]
  by_cases hd : d = entry.domainName
  · subst hd
    rw [if_pos rfl, if_pos rfl, DNSCache.get_toMap]
    rcases cache.find entry.domainName with _ | e <;> rfl
  · rw [if_neg hd, if_neg hd, DNSCache.get_toMap]

theorem toMap_cleanUp (h : cache.Inv) (now : Int) :
    (dnsCacheCleanUp now cache).toMap = cache.toMap.cleanUp now := by
  refine FiniteMap.ext fun d => ?_
  rw [DNSCache.get_toMap, find_cleanUp h, CacheMap.cleanUp, FiniteMap.get_keep,
    DNSCache.get_toMap]
  rcases cache.find d with _ | e
  · rfl
  · rw [Option.filter_some, Option.map_some, Option.filter_some]
    unfold CacheMap.fresh
    split <;> rfl

theorem toMap_lookup (h : cache.Inv) (cleanNow now : Int) (domainName : Bytes) :
    (lookupDNSCache cleanNow now cache domainName).1.toMap
        = (cache.toMap.lookup cleanNow now domainName).1 ∧
      (lookupDNSCache cleanNow now cache domainName).2
        = (cache.toMap.lookup cleanNow now domainName).2 := by
  unfold CacheMap.lookup
  rw [(lookupDNSCache_eq cleanNow now cache domainName).1, ← toMap_cleanUp h cleanNow]
  rcases hfound : (dnsCacheCleanUp cleanNow cache).find domainName with _ | entry
  · simp only [DNSCache.get_toMap, hfound, Option.map_none]
    refine ⟨FiniteMap.ext fun d => ?_, trivial⟩
    show _ = (dnsCacheCleanUp cleanNow cache).toMap.get d
    rw [DNSCache.get_toMap, find_lookup, DNSCache.get_toMap]
    by_cases hd : d = domainName
    · rw [if_pos hd, hd, hfound]
      rfl
    · rw [if_neg hd]
  · simp only [DNSCache.get_toMap, hfound, Option.map_some]
    refine ⟨FiniteMap.ext fun d => ?_, trivial⟩
    show _ = FiniteMap.get (FiniteMap.set _ domainName _) d
    rw [DNSCache.get_toMap, find_lookup, FiniteMap.get_set, DNSCache.get_toMap]
    by_cases hd : d = domainName
    · rw [if_pos hd, if_pos hd, hd, hfound]
      rfl
    · rw [if_neg hd, if_neg hd]

/-- The cache is sound and stands for the map. -/
def StandsFor (cache : DNSCache) (m : CacheMap) : Prop := cache.Inv ∧ cache.toMap = m

theorem run_simulates {m : CacheMap} (h : StandsFor cache m) (op : CacheOp) :
    StandsFor (op.run cache).1 (op.apply m).1 ∧ (op.run cache).2 = (op.apply m).2 := by
  obtain ⟨hinv, rfl⟩ := h
  rcases op with _ | ⟨entry, now⟩ | ⟨domainName, cleanNow, now⟩ | now
  · exact ⟨⟨hinv.run CacheOp.start, toMap_start⟩, rfl⟩
  · exact ⟨⟨hinv.add now entry, toMap_add now entry⟩, rfl⟩
  · obtain ⟨hmap, hout⟩ := toMap_lookup hinv cleanNow now domainName
    exact ⟨⟨hinv.lookup cleanNow now domainName, hmap⟩, hout⟩
  · exact ⟨⟨hinv.cleanUp now, toMap_cleanUp hinv now⟩, rfl⟩

/--
**The cache refines a map.**  Whatever calls are made, with whatever domains and
clock readings, the lookups answer as the map does, the cache stands for the map,
every entry is in its domain's bucket, and no domain occurs twice in the cache.
-/
theorem dnsCache_refines (ops : List CacheOp) :
    (exec CacheOp.run initializeDNSCache ops).2 = (exec CacheOp.apply FiniteMap.empty ops).2 ∧
    (exec CacheOp.run initializeDNSCache ops).1.toMap
      = (exec CacheOp.apply FiniteMap.empty ops).1 ∧
    (∀ i, ∀ entry ∈ (exec CacheOp.run initializeDNSCache ops).1.buckets i,
      hashFunction entry.domainName = i) ∧
    ((exec CacheOp.run initializeDNSCache ops).1.entries.map CacheEntry.domainName).Nodup := by
  have hstart : StandsFor initializeDNSCache FiniteMap.empty :=
    ⟨DNSCache.Inv.start, toMap_start⟩
  obtain ⟨⟨hinv, hmap⟩, houts⟩ :=
    @exec_simulates _ _ _ _ _ _ StandsFor (fun _ _ op h => run_simulates h op) _ _ hstart ops
  exact ⟨houts, hmap, hinv.valid.placed, hinv.valid.nodup_entries⟩

end DnsServer
