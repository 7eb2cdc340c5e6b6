/-
Whole runs of the cache on the heap.

A memory stands for a cache when its heap represents it, what was never given out is
unused, and what was freed was given out and freed once.  Every call keeps this, answers
as the call on the lists does, and accounts for its allocations: an entry that is added
is three blocks of the cache's, an entry that has lived its time is three blocks freed,
and an entry that is refused is three blocks nobody has.
-/
import DnsServer.Proofs.CacheMemory

namespace DnsServer

open Call Runs

/-- What the listed entries are made of. -/
def CacheHeap.owned (s : CacheHeap) (lists : Fin maxCache → List Nat) : List Nat :=
  ((List.finRange maxCache).flatMap lists).flatMap s.parts

namespace CacheHeap

variable {s s₁ : CacheHeap} {lists : Fin maxCache → List Nat} {cache : DNSCache} {a : Nat}
  {as : List Nat} {now : Int} {e : CacheEntry}

/-! ### Counting -/

theorem length_parts (hentry : ∀ a ∈ as, ∃ fields, s.blocks a = .entry fields) :
    (as.flatMap s.parts).length = 3 * as.length := by
  induction as with
  | nil => rfl
  | cons a as ih =>
      obtain ⟨fields, hfields⟩ := hentry a List.mem_cons_self
      rw [List.flatMap_cons, List.length_append,
        ih fun b hb => hentry b (List.mem_cons_of_mem a hb), parts_entry hfields]
      simp only [List.length_cons, List.length_nil]
      omega

/-- The listed entries are as many as the cache's. -/
theorem Represents.length_listed (h : s.Represents lists cache) :
    ((List.finRange maxCache).flatMap lists).length = cache.entries.length := by
  have hmap : ((List.finRange maxCache).flatMap lists).map s.contents = cache.entries.map some := by
    unfold DNSCache.entries HashTable.entries
    rw [List.map_flatMap, List.map_flatMap]
    exact List.flatMap_congr fun i _ => h.2 i
  have hlength := congrArg List.length hmap
  rw [List.length_map, List.length_map] at hlength
  exact hlength

theorem Represents.length_owned (h : s.Represents lists cache) :
    (s.owned lists).length = 3 * cache.entries.length := by
  rw [← h.length_listed]
  refine length_parts fun a ha => ?_
  obtain ⟨i, -, ha⟩ := List.mem_flatMap.mp ha
  exact h.1.isEntry ha

theorem Holds.nodup_owned (h : s.Holds lists) : (s.owned lists).Nodup := by
  have hlisted : ((List.finRange maxCache).flatMap lists).Nodup := by
    refine List.nodup_flatMap.mpr ⟨fun i _ => (h.linked i).nodup, ?_⟩
    refine (List.nodup_finRange maxCache).imp fun {i j} hij => ?_
    exact fun a hi hj => hij (h.disjoint i j a hi hj)
  refine List.nodup_flatMap.mpr ⟨fun a ha => ?_, ?_⟩
  · obtain ⟨i, -, ha⟩ := List.mem_flatMap.mp ha
    exact h.apart i a ha
  · refine List.Pairwise.imp_of_mem ?_ hlisted
    intro a b ha hb hne x hxa hxb
    obtain ⟨i, -, ha⟩ := List.mem_flatMap.mp ha
    obtain ⟨j, -, hb⟩ := List.mem_flatMap.mp hb
    exact hne (h.own i j a b x ha hb hxa hxb)

/-- An eviction frees three blocks for every entry the cache has less. -/
theorem Represents.length_evicted {cache₁ : DNSCache} (h : s.Represents lists cache)
    (h₁ : s₁.Represents (fun i => (lists i).filter fun a => !s.expired now a) cache₁)
    (hevicts : Evicts s s₁ (s.expiredEntries lists now)) :
    s₁.frees.length + 3 * cache₁.entries.length
      = s.frees.length + 3 * cache.entries.length := by
  have hgone : ((s.expiredEntries lists now).flatMap s.parts).length
      = 3 * (s.expiredEntries lists now).length := by
    refine length_parts fun a ha => ?_
    obtain ⟨i, -, ha⟩ := List.mem_flatMap.mp ha
    exact h.1.isEntry (List.mem_filter.mp ha).1
  have hsplit := List.length_eq_length_filter_add (l := (List.finRange maxCache).flatMap lists)
    (s.expired now)
  rw [List.filter_flatMap, List.filter_flatMap] at hsplit
  have hkept := h₁.length_listed
  have hall := h.length_listed
  rw [hevicts.frees, List.length_append, hgone]
  unfold expiredEntries at *
  omega

/-- An insertion is one entry more. -/
theorem Adds.length_entries (hadds : Adds s lists cache now a e s₁ true)
    (h : s.Represents lists cache) :
    (DnsServer.addCacheEntry now cache e).entries.length = cache.entries.length + 1 := by
  rcases hadds with _ | ⟨-, hrepresents, -⟩
  rw [← hrepresents.length_listed, ← h.length_listed]
  obtain ⟨front, back, hsplit⟩ := List.append_of_mem (List.mem_finRange (hashFunction e.domainName))
  have hnodup := List.nodup_finRange maxCache
  rw [hsplit] at hnodup ⊢
  obtain ⟨hfront, hback⟩ :
      hashFunction e.domainName ∉ front ∧ hashFunction e.domainName ∉ back := by
    have hmiddle := List.nodup_cons.mp (List.nodup_middle.mp hnodup)
    rw [List.mem_append, not_or] at hmiddle
    exact hmiddle.1
  have hother : ∀ is : List (Fin maxCache), hashFunction e.domainName ∉ is →
      is.flatMap (Function.update lists (hashFunction e.domainName)
        (a :: lists (hashFunction e.domainName))) = is.flatMap lists := by
    intro is his
    refine List.flatMap_congr fun i hi => ?_
    have hne : i ≠ hashFunction e.domainName := fun heq => his (heq ▸ hi)
    exact Function.update_of_ne hne _ _
  rw [List.flatMap_append, List.flatMap_append, List.flatMap_cons, List.flatMap_cons,
    hother front hfront, hother back hback, Function.update_self]
  simp only [List.length_append, List.length_cons]
  omega

end CacheHeap

namespace CacheMemory

variable {m : CacheMemory} {lists : Fin maxCache → List Nat} {cache : DNSCache}
  {i : Fin maxCache} {a b : Nat} {e : CacheEntry} {block : Block}

/-- The memory is the cache's, and the allocator has kept to its rules. -/
structure Stands (m : CacheMemory) (lists : Fin maxCache → List Nat) (cache : DNSCache) :
    Prop where
  represents : m.heap.Represents lists cache
  unused : ∀ a, m.heap.blocks a = .unused ↔ m.fresh ≤ a
  freed : ∀ a, m.heap.blocks a = .freed ↔ a ∈ m.heap.frees
  once : m.heap.frees.Nodup

theorem stands_start : initializeDNSCache.Stands (fun _ => []) DnsServer.initializeDNSCache := by
  refine ⟨⟨⟨fun _ => rfl, fun _ => trivial, ?_, ?_, ?_, ?_⟩, fun _ => rfl⟩, ?_, ?_,
    List.nodup_nil⟩
  · exact fun i j a ha => absurd ha List.not_mem_nil
  · exact fun i a ha => absurd ha List.not_mem_nil
  · exact fun i a ha => absurd ha List.not_mem_nil
  · exact fun i j a b x ha => absurd ha List.not_mem_nil
  · exact fun a => ⟨fun _ => Nat.zero_le a, fun _ => rfl⟩
  · exact fun a => ⟨fun h => by simp [initializeDNSCache] at h,
      fun h => absurd h List.not_mem_nil⟩

namespace Stands

theorem valid (h : m.Stands lists cache) : m.ledger.Valid := by
  refine ⟨h.once, fun a ha => ?_⟩
  refine Nat.lt_of_not_le fun hle => ?_
  have hunused := (h.unused a).mpr hle
  rw [(h.freed a).mpr ha] at hunused
  simp at hunused

theorem mem_live (h : m.Stands lists cache) (hunused : m.heap.blocks a ≠ .unused)
    (hfreed : m.heap.blocks a ≠ .freed) : a ∈ m.ledger.live :=
  Ledger.mem_live.mpr ⟨Nat.lt_of_not_le fun hle => hunused ((h.unused a).mpr hle),
    fun hmem => hfreed ((h.freed a).mpr hmem)⟩

theorem owned_live (h : m.Stands lists cache) (ha : a ∈ m.heap.owned lists) :
    a ∈ m.ledger.live := by
  obtain ⟨b, hb, ha⟩ := List.mem_flatMap.mp ha
  obtain ⟨i, -, hb⟩ := List.mem_flatMap.mp hb
  obtain ⟨hunused, hfreed⟩ := h.represents.1.used hb ha
  exact h.mem_live hunused hfreed

/-- What a listed entry is made of has been given out. -/
theorem below (h : m.Stands lists cache) (ha : a ∈ lists i) (hb : b ∈ m.heap.parts a) :
    b < m.fresh :=
  Nat.lt_of_not_le fun hle => (h.represents.1.used ha hb).1 ((h.unused b).mpr hle)

/-! ### Allocating -/

theorem malloc (h : m.Stands lists cache) (hunused : block ≠ .unused) (hfreed : block ≠ .freed) :
    (m.malloc block).2.Stands lists cache := by
  have hfresh : m.heap.blocks m.fresh = .unused := (h.unused m.fresh).mpr (Nat.le_refl _)
  have hsame : ∀ a, a ≠ m.fresh → (m.heap.put m.fresh block).blocks a = m.heap.blocks a :=
    fun a ha => Function.update_of_ne ha _ _
  have hself : (m.heap.put m.fresh block).blocks m.fresh = block := Function.update_self _ _ _
  refine ⟨h.represents.malloc hfresh block, fun a => ?_, fun a => ?_, h.once⟩
  · show (m.heap.put m.fresh block).blocks a = .unused ↔ m.fresh + 1 ≤ a
    by_cases ha : a = m.fresh
    · rw [ha, hself]
      exact ⟨fun heq => absurd heq hunused, fun hle => by omega⟩
    · rw [hsame a ha, h.unused a]
      omega
  · show (m.heap.put m.fresh block).blocks a = .freed ↔ a ∈ m.heap.frees
    rw [← h.freed a]
    by_cases ha : a = m.fresh
    · rw [ha, hself, hfresh]
      exact ⟨fun heq => absurd heq hfreed, fun heq => by simp at heq⟩
    · rw [hsame a ha]

end Stands

/-- The blocks of an entry that has just been made. -/
theorem newEntry_blocks (m : CacheMemory) (e : CacheEntry) :
    (m.newEntry e).2.heap.blocks m.fresh = .entry
        { domainName := m.fresh + 1, recordValue := m.fresh + 2, ttl := e.ttl
          timestamp := e.timestamp, next := none } ∧
      (m.newEntry e).2.heap.blocks (m.fresh + 1) = .string e.domainName ∧
      (m.newEntry e).2.heap.blocks (m.fresh + 2) = .string e.recordValue := by
  show Function.update (Function.update (Function.update m.heap.blocks m.fresh _) (m.fresh + 1) _)
      (m.fresh + 2) _ m.fresh = _ ∧
    Function.update (Function.update (Function.update m.heap.blocks m.fresh _) (m.fresh + 1) _)
      (m.fresh + 2) _ (m.fresh + 1) = _ ∧
    Function.update (Function.update (Function.update m.heap.blocks m.fresh _) (m.fresh + 1) _)
      (m.fresh + 2) _ (m.fresh + 2) = _
  refine ⟨?_, ?_, Function.update_self _ _ _⟩
  · rw [Function.update_of_ne (by omega), Function.update_of_ne (by omega), Function.update_self]
  · rw [Function.update_of_ne (by omega), Function.update_self]

theorem newEntry_blocks_of_lt (m : CacheMemory) (e : CacheEntry) (ha : a < m.fresh) :
    (m.newEntry e).2.heap.blocks a = m.heap.blocks a := by
  show Function.update (Function.update (Function.update m.heap.blocks m.fresh _) (m.fresh + 1) _)
      (m.fresh + 2) _ a = _
  rw [Function.update_of_ne (by omega), Function.update_of_ne (by omega),
    Function.update_of_ne (by omega)]

/-- An entry that has just been made is in no list, and has its strings to itself. -/
theorem Stands.newEntry (h : m.Stands lists cache) (e : CacheEntry) :
    (m.newEntry e).2.Stands lists cache ∧
      (m.newEntry e).2.heap.Loose lists (m.newEntry e).1 e := by
  have hstands : (m.newEntry e).2.Stands lists cache :=
    ((h.malloc (by simp) (by simp)).malloc (by simp) (by simp)).malloc (by simp) (by simp)
  obtain ⟨hentry, hdomain, hrecord⟩ := newEntry_blocks m e
  have hparts := CacheHeap.parts_entry hentry
  refine ⟨hstands, CacheHeap.contents_eq_some_iff.mpr ⟨_, hentry, rfl, rfl, ?_, ?_⟩, ?_, ?_⟩
  · show ((m.newEntry e).2.heap.blocks (m.fresh + 1)).asString = _
    rw [hdomain]
    rfl
  · show ((m.newEntry e).2.heap.blocks (m.fresh + 2)).asString = _
    rw [hrecord]
    rfl
  · show ((m.newEntry e).2.heap.parts m.fresh).Nodup
    rw [hparts]
    simp
  · intro i b hb x hx hxb
    have hx' : x ∈ (m.newEntry e).2.heap.parts m.fresh := hx
    rw [hparts] at hx'
    simp only [List.mem_cons, List.not_mem_nil, or_false] at hx'
    have hlt := h.below hb (h.represents.1.mem_parts hb)
    have hxb' : x ∈ m.heap.parts b := by
      unfold CacheHeap.parts at hxb ⊢
      rw [newEntry_blocks_of_lt m e hlt] at hxb
      exact hxb
    have hxlt := h.below hb hxb'
    omega

/-! ### Calls -/

/-- The memory after a change to the heap that evicts entries. -/
theorem Stands.evict {s₁ : CacheHeap} {lists₁ : Fin maxCache → List Nat} {cache₁ : DNSCache}
    {now : Int} (h : m.Stands lists cache) (hrepresents : s₁.Represents lists₁ cache₁)
    (hevicts : CacheHeap.Evicts m.heap s₁ (m.heap.expiredEntries lists now)) :
    Stands { m with heap := s₁ } lists₁ cache₁ := by
  have hused := h.represents.1.expired_used now
  refine ⟨hrepresents, fun a => (hevicts.unused a).trans (h.unused a), fun a => ?_, ?_⟩
  · rw [hevicts.freed, hevicts.frees, List.mem_append, h.freed]
  · show s₁.frees.Nodup
    rw [hevicts.frees]
    refine List.nodup_append.mpr ⟨h.once, h.represents.1.nodup_freed, ?_⟩
    intro a ha b hb heq
    subst heq
    exact (hused a hb).2 ((h.freed a).mpr ha)

/-- A string that no listed entry is made of. -/
def Foreign (m : CacheMemory) (lists : Fin maxCache → List Nat) (b : Nat) (bytes : Bytes) : Prop :=
  (m.heap.blocks b).asString = some bytes ∧ ∀ i, ∀ a ∈ lists i, b ∉ m.heap.parts a

/-- An eviction leaves the strings that are not the cache's. -/
theorem Foreign.evict {s₁ : CacheHeap} {now : Int} {bytes : Bytes} (h : m.Foreign lists b bytes)
    (hholds : s₁.Holds fun i => (lists i).filter fun a => !m.heap.expired now a)
    (hevicts : CacheHeap.Evicts m.heap s₁ (m.heap.expiredEntries lists now)) :
    Foreign { m with heap := s₁ } (fun i => (lists i).filter fun a => !m.heap.expired now a) b
      bytes := by
  refine ⟨?_, fun i a ha => ?_⟩
  · show (s₁.blocks b).asString = _
    rw [hevicts.strings b, h.1]
    intro hgone
    obtain ⟨a, ha, hb⟩ := List.mem_flatMap.mp hgone
    obtain ⟨i, -, ha⟩ := List.mem_flatMap.mp ha
    exact h.2 i a (List.mem_filter.mp ha).1 hb
  · show b ∉ s₁.parts a
    rw [hevicts.parts a (hholds.not_freed ha)]
    exact h.2 i a (List.mem_filter.mp ha).1

/-- What one call keeps of what was allocated: the blocks given out, and those that were freed or
are the cache's. -/
structure Keeps (m m₁ : CacheMemory) (cache cache₁ : DNSCache) : Prop where
  fresh : m₁.fresh = m.fresh
  owed : m₁.heap.frees.length + 3 * cache₁.entries.length
    = m.heap.frees.length + 3 * cache.entries.length

theorem Stands.cleanUp (h : m.Stands lists cache) (now : Int) :
    ∃ m₁ lists₁, Settles (fun fuel => m.dnsCacheCleanUp fuel now) (done m₁) ∧
      m₁.Stands lists₁ (DnsServer.dnsCacheCleanUp now cache) ∧
      m.Keeps m₁ cache (DnsServer.dnsCacheCleanUp now cache) := by
  obtain ⟨s₁, hsettles, hrepresents, hcleans⟩ := CacheHeap.settles_dnsCacheCleanUp h.represents now
  have hevicts := hcleans.evicts fun b hb => (h.represents.1.expired_used now b hb).1
  exact ⟨{ m with heap := s₁ }, _, hsettles.map fun heap => CacheMemory.mk heap m.fresh,
    h.evict hrepresents hevicts, rfl, h.represents.length_evicted hrepresents hevicts⟩

theorem Stands.lookup (h : m.Stands lists cache) (printNow cleanNow now : Int) (d : Bytes) :
    ∃ m₁ lists₁ found,
      Settles (fun fuel => m.lookupDNSCache fuel printNow cleanNow now d)
        (done (m₁, printDNSCache printNow cache, found)) ∧
      m₁.Stands lists₁ (DnsServer.lookupDNSCache cleanNow now cache d).1 ∧
      m₁.heap.readValue found = done (DnsServer.lookupDNSCache cleanNow now cache d).2 ∧
      m.Keeps m₁ cache (DnsServer.lookupDNSCache cleanNow now cache d).1 ∧
      ∀ b bytes, m.Foreign lists b bytes → m₁.Foreign lists₁ b bytes := by
  obtain ⟨s₁, found, hsettles, hrepresents, hvalue, hevicts⟩ :=
    CacheHeap.settles_lookupDNSCache h.represents printNow cleanNow now d
  exact ⟨{ m with heap := s₁ }, _, found, hsettles.map fun r => (CacheMemory.mk r.1 m.fresh, r.2),
    h.evict hrepresents hevicts, hvalue,
    ⟨rfl, h.represents.length_evicted hrepresents hevicts⟩,
    fun b bytes hforeign => hforeign.evict hrepresents.1 hevicts⟩

/-- The memory after an entry was given to `addCacheEntry`: it stands for the cache with the
entry, and the entry's value can be read, whether it was inserted or refused. -/
structure Added (m m₁ : CacheMemory) (cache : DNSCache) (now : Int) (a : Nat) (e : CacheEntry)
    (inserted : Bool) : Prop where
  stands : ∃ lists₁, m₁.Stands lists₁ (DnsServer.addCacheEntry now cache e)
  answer : inserted = !bucketHolds e.domainName (cache.buckets (hashFunction e.domainName))
  fresh : m₁.fresh = m.fresh
  frees : m₁.heap.frees = m.heap.frees
  entries : (DnsServer.addCacheEntry now cache e).entries.length
    = cache.entries.length + if inserted then 1 else 0
  value : ∃ fields, m₁.heap.blocks a = .entry fields ∧
    (m₁.heap.blocks fields.recordValue).asString = some e.recordValue

theorem Stands.add (h : m.Stands lists cache) (hloose : m.heap.Loose lists a e) (now : Int) :
    ∃ m₁ inserted, Settles (fun fuel => m.addCacheEntry fuel now a) (done (m₁, inserted)) ∧
      m.Added m₁ cache now a e inserted := by
  obtain ⟨s₁, inserted, hsettles, hadds⟩ :=
    CacheHeap.settles_addCacheEntry h.represents hloose now
  obtain ⟨fields, hentry, -, -, -, hrecord⟩ := CacheHeap.contents_eq_some_iff.mp hloose.contents
  refine ⟨{ m with heap := s₁ }, inserted,
    hsettles.map fun r => (CacheMemory.mk r.1 m.fresh, r.2), ?_⟩
  cases hadds with
  | refused hrefused =>
      have hsame : DnsServer.addCacheEntry now cache e = cache := if_pos hrefused
      refine ⟨⟨lists, ?_⟩, by rw [hrefused]; rfl, rfl, rfl, ?_, fields, hentry, hrecord⟩
      · rw [hsame]
        exact h
      · rw [hsame]
        rfl
  | inserted hnew hrepresents hfrees hsame hentry₁ hparts =>
      obtain ⟨fields₁, hentry₁⟩ := hentry₁
      have hkind : ∀ b, (s₁.blocks b = .unused ↔ m.heap.blocks b = .unused) ∧
          (s₁.blocks b = .freed ↔ m.heap.blocks b = .freed) := by
        intro b
        by_cases hb : b = a
        · rw [hb, hentry, hentry₁]
          simp
        · rw [hsame b hb]
          simp
      have hparts' := congrFun hparts a
      rw [CacheHeap.parts_entry hentry, CacheHeap.parts_entry hentry₁] at hparts'
      simp only [List.cons.injEq, and_true] at hparts'
      have hne : fields₁.recordValue ≠ a := by
        intro heq
        rw [hparts'.2] at heq
        rw [heq, hentry] at hrecord
        simp [Block.asString] at hrecord
      refine ⟨⟨_, hrepresents, fun b => (hkind b).1.trans (h.unused b), fun b => ?_, ?_⟩,
        by rw [hnew]; rfl, rfl, hfrees,
        (CacheHeap.Adds.inserted hnew hrepresents hfrees hsame ⟨_, hentry₁⟩ hparts).length_entries
          h.represents, fields₁, hentry₁, ?_⟩
      · rw [hfrees]
        exact (hkind b).2.trans (h.freed b)
      · rw [hfrees]
        exact h.once
      · show (s₁.blocks fields₁.recordValue).asString = _
        rw [hsame _ hne, hparts'.2]
        exact hrecord

/-- Every block given out is freed, of a listed entry, or of an entry that was refused. -/
def Balanced (m : CacheMemory) (cache : DNSCache) (refused : Nat) : Prop :=
  m.fresh = m.heap.frees.length + 3 * cache.entries.length + 3 * refused

theorem Keeps.balanced {m₁ : CacheMemory} {cache₁ : DNSCache} {refused : Nat}
    (h : m.Keeps m₁ cache cache₁) (hbalanced : m.Balanced cache refused) :
    m₁.Balanced cache₁ refused := by
  unfold Balanced at hbalanced ⊢
  rw [h.fresh, h.owed]
  exact hbalanced

/-- One call: it returns, answers as the call on the lists, and keeps the memory and the
balance. -/
theorem Stands.call (h : m.Stands lists cache) {refused : Nat}
    (hbalanced : m.Balanced cache refused) (call : CacheCall) :
    ∃ m₁ lists₁, Settles (fun fuel => call.runHeap fuel m) (done (m₁, (call.run cache).2)) ∧
      m₁.Stands lists₁ (call.run cache).1 ∧
      m₁.Balanced (call.run cache).1
        (refused + if (call.run cache).2 = .alreadyExists then 1 else 0) := by
  rcases call with ⟨domainName, ipAddress, now⟩ | ⟨domainName, printNow, cleanNow, now⟩ | now | now
  · obtain ⟨hnew, hloose⟩ := h.newEntry (DnsServer.dnsCreateNewEntry domainName ipAddress)
    obtain ⟨m₁, inserted, hsettles, hadded⟩ := hnew.add hloose now
    obtain ⟨lists₁, hstands⟩ := hadded.stands
    have hrun := hsettles.map fun r =>
      (r.1, if r.2 = true then CacheAnswer.inserted else .alreadyExists)
    have hanswer : ((CacheCall.add domainName ipAddress now).run cache).2
        = if inserted = true then .inserted else .alreadyExists := by
      rw [hadded.answer]
      show (if bucketHolds domainName (cache.buckets (hashFunction domainName)) = true
        then CacheAnswer.alreadyExists else .inserted) = _
      rcases hholds : bucketHolds domainName (cache.buckets (hashFunction domainName)) with _ | _
      · rw [show (DnsServer.dnsCreateNewEntry domainName ipAddress).domainName = domainName
          from rfl, hholds]
        rfl
      · rw [show (DnsServer.dnsCreateNewEntry domainName ipAddress).domainName = domainName
          from rfl, hholds]
        rfl
    rw [hanswer]
    refine ⟨m₁, lists₁, hrun, hstands, ?_⟩
    have hentries : ((CacheCall.add domainName ipAddress now).run cache).1.entries.length = _ :=
      hadded.entries
    have hfresh : m₁.fresh = m.fresh + 3 := hadded.fresh
    have hfrees : m₁.heap.frees = m.heap.frees := hadded.frees
    unfold Balanced at hbalanced ⊢
    rw [hentries, hfresh, hfrees, hbalanced]
    rcases inserted with _ | _
    · simp only [Bool.false_eq_true, if_false, if_true]
      omega
    · simp only [if_true, reduceCtorEq, if_false]
      omega
  · obtain ⟨m₁, lists₁, found, hsettles, hstands, hvalue, hkeeps, -⟩ :=
      h.lookup printNow cleanNow now domainName
    refine ⟨m₁, lists₁, ?_, hstands, hkeeps.balanced hbalanced⟩
    refine hsettles.andThen (g := fun _ r => r.1.heap.readValue r.2.2 >>= fun value =>
      done (r.1, CacheAnswer.lookedUp r.2.1 value)) (Settles.of_eq fun fuel => ?_)
    rw [hvalue]
    rfl
  · obtain ⟨m₁, lists₁, hsettles, hstands, hkeeps⟩ := h.cleanUp now
    exact ⟨m₁, lists₁, hsettles.map fun m => (m, CacheAnswer.cleaned), hstands,
      hkeeps.balanced hbalanced⟩
  · exact ⟨m, lists, (CacheHeap.settles_printDNSCache h.represents now).map fun lines =>
      (m, CacheAnswer.printed lines), h, hbalanced⟩

/-- The memory and the cache after calls that were answered so. -/
def Tracks (answers : List CacheAnswer) (m : CacheMemory) (cache : DNSCache) : Prop :=
  ∃ lists, m.Stands lists cache ∧ m.Balanced cache (answers.count .alreadyExists)

theorem Tracks.call {answers : List CacheAnswer} (h : Tracks answers m cache) (call : CacheCall) :
    ∃ m₁, Settles (fun fuel => call.runHeap fuel m) (done (m₁, (call.run cache).2)) ∧
      Tracks (answers ++ [(call.run cache).2]) m₁ (call.run cache).1 := by
  obtain ⟨lists, hstands, hbalanced⟩ := h
  obtain ⟨m₁, lists₁, hsettles, hstands₁, hbalanced₁⟩ := hstands.call hbalanced call
  refine ⟨m₁, hsettles, lists₁, hstands₁, ?_⟩
  rw [List.count_append, List.count_singleton]
  by_cases hanswer : (call.run cache).2 = .alreadyExists
  · rw [if_pos hanswer] at hbalanced₁
    rw [hanswer]
    exact hbalanced₁
  · rw [if_neg hanswer] at hbalanced₁
    rw [if_neg (by simpa using hanswer)]
    exact hbalanced₁

/-- A run of calls, whatever they are. -/
theorem tracks_run (calls : List CacheCall) :
    ∃ m, Settles (fun fuel => execAll (CacheCall.runHeap fuel) initializeDNSCache calls)
        (done (m, (exec CacheCall.run DnsServer.initializeDNSCache calls).2)) ∧
      Tracks (exec CacheCall.run DnsServer.initializeDNSCache calls).2 m
        (exec CacheCall.run DnsServer.initializeDNSCache calls).1 :=
  execAll_matches (fun _ _ _ call h => h.call call) ⟨_, stands_start, rfl⟩ calls

end CacheMemory

/-! ### What the runs come to -/

/-- The value a lookup gave. -/
def CacheAnswer.value : CacheAnswer → Option (Option Bytes)
  | lookedUp _ recordValue => some recordValue
  | _ => none

/-- The call on the map the cache is for. -/
def CacheCall.apply (m : CacheMap) : CacheCall → CacheMap × Option (Option Bytes)
  | add domainName ipAddress now => (m.add now domainName ipAddress, none)
  | lookup domainName _ cleanNow now =>
      ((m.lookup cleanNow now domainName).1, some (m.lookup cleanNow now domainName).2)
  | cleanUp now => (m.cleanUp now, none)
  | print _ => (m, none)

theorem CacheCall.run_simulates {cache : DNSCache} {m : CacheMap} (h : StandsFor cache m)
    (call : CacheCall) :
    StandsFor (call.run cache).1 (call.apply m).1 ∧
      (call.run cache).2.value = (call.apply m).2 := by
  obtain ⟨hinv, rfl⟩ := h
  rcases call with ⟨domainName, ipAddress, now⟩ | ⟨domainName, printNow, cleanNow, now⟩ | now | now
  · refine ⟨⟨hinv.add now _, toMap_add now _⟩, ?_⟩
    show CacheAnswer.value (if _ then _ else _) = none
    split <;> rfl
  · obtain ⟨hmap, hvalue⟩ := toMap_lookup hinv cleanNow now domainName
    exact ⟨⟨hinv.lookup cleanNow now domainName, hmap⟩, congrArg some hvalue⟩
  · exact ⟨⟨hinv.cleanUp now, toMap_cleanUp hinv now⟩, rfl⟩
  · exact ⟨⟨hinv, rfl⟩, rfl⟩

/-- On the lists, a run of calls is the run on the map. -/
theorem CacheCall.exec_simulates (calls : List CacheCall) :
    StandsFor (exec CacheCall.run initializeDNSCache calls).1
        (exec CacheCall.apply FiniteMap.empty calls).1 ∧
      (exec CacheCall.run initializeDNSCache calls).2.map CacheAnswer.value
        = (exec CacheCall.apply FiniteMap.empty calls).2 := by
  have hstart : StandsFor initializeDNSCache FiniteMap.empty := ⟨DNSCache.Inv.start, toMap_start⟩
  have hsim := @Runs.exec_simulates _ _ _ _
    (fun cache call => ((CacheCall.run cache call).1, (CacheCall.run cache call).2.value))
    CacheCall.apply StandsFor (fun _ _ call h => CacheCall.run_simulates h call) _ _ hstart calls
  rw [Runs.exec_map CacheCall.run CacheAnswer.value] at hsim
  exact hsim

/--
**The cache in memory refines the map.**  Whatever calls are made of the cache, by address, from
the start, they return without touching a block that is not there and without freeing one twice;
what they print and give is what the calls on lists of entries do, the lists stand for the map, and
what lookups give is what they give on the map.
-/
theorem heap_refines_map (calls : List CacheCall) :
    ∃ m lists,
      Settles (fun fuel => execAll (CacheCall.runHeap fuel) CacheMemory.initializeDNSCache calls)
        (done (m, (exec CacheCall.run initializeDNSCache calls).2)) ∧
      m.heap.Represents lists (exec CacheCall.run initializeDNSCache calls).1 ∧
      m.heap.frees.Nodup ∧
      (exec CacheCall.run initializeDNSCache calls).1.toMap
        = (exec CacheCall.apply FiniteMap.empty calls).1 ∧
      (exec CacheCall.run initializeDNSCache calls).2.map CacheAnswer.value
        = (exec CacheCall.apply FiniteMap.empty calls).2 := by
  obtain ⟨m, hsettles, lists, hstands, -⟩ := CacheMemory.tracks_run calls
  obtain ⟨⟨-, hmap⟩, hvalues⟩ := CacheCall.exec_simulates calls
  exact ⟨m, lists, hsettles, hstands.represents, hstands.once, hmap, hvalues⟩

/--
**The cache loses three blocks for every entry it refuses, and no others.**  After any calls, what
has been allocated and not freed is what the entries in the cache are made of, and three blocks for
each addition that was answered by "Entry already exists in cache!".
-/
theorem cache_loses_refused (calls : List CacheCall) :
    ∃ m lists answers,
      Settles (fun fuel => execAll (CacheCall.runHeap fuel) CacheMemory.initializeDNSCache calls)
        (done (m, answers)) ∧
      m.heap.Represents lists (exec CacheCall.run initializeDNSCache calls).1 ∧
      (∀ a ∈ m.heap.owned lists, a ∈ m.ledger.live) ∧
      (m.ledger.unowned (m.heap.owned lists)).length = 3 * answers.count .alreadyExists := by
  obtain ⟨m, hsettles, lists, hstands, hbalanced⟩ := CacheMemory.tracks_run calls
  refine ⟨m, lists, _, hsettles, hstands.represents, fun a ha => hstands.owned_live ha, ?_⟩
  have hunowned := Ledger.length_unowned hstands.represents.1.nodup_owned
    fun a ha => hstands.owned_live ha
  have hlive := hstands.valid.length_live
  have hissued : m.ledger.issued = m.fresh := rfl
  have hfreed : m.ledger.freed = m.heap.frees := rfl
  unfold CacheMemory.Balanced at hbalanced
  rw [hstands.represents.length_owned] at hunowned
  rw [hissued, hfreed] at hlive
  omega

/-! ### The listing -/

/-- The line of an entry that has not lived its time. -/
def CacheEntry.line (now : Int) (e : CacheEntry) : CacheLine :=
  { domainName := e.domainName, recordValue := e.recordValue
    timeLeft := e.ttl - (now - e.timestamp) }

/-- The entries printed are those a cleaning would keep. -/
theorem filterMap_cacheLine (now : Int) (bucket : List CacheEntry) :
    bucket.filterMap (cacheLine now) = (cleanUpBucket now bucket).map (CacheEntry.line now) := by
  induction bucket with
  | nil => rfl
  | cons e bucket ih =>
      unfold cleanUpBucket
      by_cases h : now - e.timestamp ≥ e.ttl
      · have hline : cacheLine now e = none := if_neg (by omega)
        rw [List.filterMap_cons_none hline, if_pos h, ih]
      · have hline : cacheLine now e = some (e.line now) := if_pos (by omega)
        rw [List.filterMap_cons_some hline, if_neg h, List.map_cons, ih]

theorem printDNSCache_eq (now : Int) (cache : DNSCache) :
    printDNSCache now cache = (dnsCacheCleanUp now cache).entries.map (CacheEntry.line now) := by
  unfold printDNSCache DNSCache.entries HashTable.entries
  rw [List.map_flatMap]
  exact List.flatMap_congr fun i _ => filterMap_cacheLine now (cache.buckets i)

/-- An entry is in the cache when the map binds its name to its value and time. -/
theorem DNSCache.Inv.mem_entries {cache : DNSCache} (h : cache.Inv) {d v : Bytes} {t : Int} :
    cache.toMap.get d = some (v, t) ↔
      ∃ e ∈ cache.entries, e.domainName = d ∧ e.recordValue = v ∧ e.timestamp = t := by
  rw [DNSCache.get_toMap, Option.map_eq_some_iff]
  constructor
  · intro hfound
    obtain ⟨e, hfind, heq⟩ := hfound
    obtain ⟨hmem, hname⟩ := HashTable.find_eq_some hfind
    rw [Prod.mk.injEq] at heq
    exact ⟨e, HashTable.mem_entries.mpr ⟨_, hmem⟩, hname, heq.1, heq.2⟩
  · intro hmem
    obtain ⟨e, hmem, rfl, rfl, rfl⟩ := hmem
    obtain ⟨i, hi⟩ := HashTable.mem_entries.mp hmem
    exact ⟨e, h.valid.find_of_mem hi, rfl⟩

theorem DNSCache.Inv.mem_lines {cache : DNSCache} (h : cache.Inv) {now : Int} {d v : Bytes}
    {left : Int} :
    { domainName := d, recordValue := v, timeLeft := left }
        ∈ cache.entries.map (CacheEntry.line now) ↔
      ∃ t, cache.toMap.get d = some (v, t) ∧ left = 50 - (now - t) := by
  have httl : ∀ e ∈ cache.entries, e.ttl = 50 := by
    intro e he
    obtain ⟨i, hi⟩ := HashTable.mem_entries.mp he
    exact h.ttl i e hi
  rw [List.mem_map]
  constructor
  · intro hline
    obtain ⟨e, hmem, heq⟩ := hline
    unfold CacheEntry.line at heq
    rw [CacheLine.mk.injEq, httl e hmem] at heq
    obtain ⟨rfl, rfl, rfl⟩ := heq
    exact ⟨e.timestamp, h.mem_entries.mpr ⟨e, hmem, rfl, rfl, rfl⟩, rfl⟩
  · intro hbound
    obtain ⟨t, hget, rfl⟩ := hbound
    obtain ⟨e, hmem, rfl, rfl, rfl⟩ := h.mem_entries.mp hget
    refine ⟨e, hmem, ?_⟩
    unfold CacheEntry.line
    rw [httl e hmem]

/--
**The listing shows the map.**  After any calls, and at any time, `printDNSCache` prints one line
for each domain the map binds and whose binding has not lived its time, with its value and the
seconds it has left; they are the lines of the entries a cleaning at that time would keep, in the
order it would keep them.
-/
theorem listing_shows_map (calls : List CacheCall) (now : Int) :
    printDNSCache now (exec CacheCall.run initializeDNSCache calls).1
      = (dnsCacheCleanUp now (exec CacheCall.run initializeDNSCache calls).1).entries.map
          (CacheEntry.line now) ∧
    ((printDNSCache now (exec CacheCall.run initializeDNSCache calls).1).map
      CacheLine.domainName).Nodup ∧
    ∀ domainName recordValue timeLeft,
      { domainName, recordValue, timeLeft }
          ∈ printDNSCache now (exec CacheCall.run initializeDNSCache calls).1 ↔
        ∃ t, (exec CacheCall.apply FiniteMap.empty calls).1.get domainName
            = some (recordValue, t) ∧
          timeLeft = 50 - (now - t) ∧ 0 < timeLeft := by
  obtain ⟨⟨hinv, hmap⟩, -⟩ := CacheCall.exec_simulates calls
  have hclean := hinv.cleanUp now
  refine ⟨printDNSCache_eq now _, ?_, ?_⟩
  · rw [printDNSCache_eq, List.map_map]
    exact hclean.valid.nodup_entries
  · intro domainName recordValue timeLeft
    rw [printDNSCache_eq, hclean.mem_lines, toMap_cleanUp hinv, hmap]
    unfold CacheMap.cleanUp CacheMap.fresh
    refine exists_congr fun t => ?_
    rw [FiniteMap.get_keep, Option.filter_eq_some_iff]
    simp only [decide_eq_true_eq]
    constructor
    · intro h
      obtain ⟨⟨hget, hfresh⟩, hleft⟩ := h
      exact ⟨hget, hleft, by omega⟩
    · intro h
      obtain ⟨hget, hleft, hpos⟩ := h
      exact ⟨⟨hget, by omega⟩, hleft⟩

end DnsServer
