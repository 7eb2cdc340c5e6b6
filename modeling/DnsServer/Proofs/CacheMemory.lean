/-
Making, adding and touching entries on the heap.

What the lists are made of is kept by every write to something else, so an allocation
keeps it, and so does filling in an entry that is not linked yet.  An entry that is
loose, in no list and with strings of its own, can be put in front of any bucket; the
entry a lookup finds is written where only its times are.

A memory stands for a cache when its heap represents it, what was never given out is
unused, and what was freed was given out and freed once.
-/
import DnsServer.Proofs.CacheChains

namespace DnsServer

open Call LinkedList

theorem Block.unlinked_eq_unused_iff {block : Block} :
    block.unlinked = .unused ↔ block = .unused := by
  cases block <;> simp [Block.unlinked]

namespace CacheHeap

variable {s s₁ : CacheHeap} {lists : Fin maxCache → List Nat} {i : Fin maxCache} {a b : Nat}
  {fields : HeapEntry} {e : CacheEntry} {cache : DNSCache} {now : Int}

/-! ### What is kept -/

/-- A block of a listed entry is the entry or a string. -/
theorem Holds.used (h : s.Holds lists) (ha : a ∈ lists i) (hb : b ∈ s.parts a) :
    s.blocks b ≠ .unused ∧ s.blocks b ≠ .freed := by
  obtain ⟨fields, hfields⟩ := h.isEntry ha
  obtain ⟨hdomain, hrecord⟩ := h.strings i a ha fields hfields
  have hstring : ∀ c, (s.blocks c).asString ≠ none →
      s.blocks c ≠ .unused ∧ s.blocks c ≠ .freed := by
    intro c hc
    refine ⟨?_, ?_⟩
    all_goals
      intro heq
      rw [heq] at hc
      exact hc rfl
  rw [parts_entry hfields] at hb
  simp only [List.mem_cons, List.not_mem_nil, or_false] at hb
  rcases hb with rfl | rfl | rfl
  · exact hstring _ hdomain
  · exact hstring _ hrecord
  · rw [hfields]
    exact ⟨fun heq => by simp at heq, fun heq => by simp at heq⟩

/-- The lists and their contents are kept where nothing they are made of is written. -/
theorem Represents.frame (h : s.Represents lists cache) (hbuckets : s₁.buckets = s.buckets)
    (hsame : ∀ i, ∀ a ∈ lists i, ∀ b ∈ s.parts a, s₁.blocks b = s.blocks b) :
    s₁.Represents lists cache := by
  obtain ⟨hholds, hcontents⟩ := h
  refine ⟨hholds.of_unlinked (fun i a ha => ha) ?_ ?_ ?_, ?_⟩
  · intro i a ha b hb
    rw [hsame i a ha b hb]
  · intro i
    rw [hbuckets]
    exact hholds.head i
  · intro i
    refine (hholds.linked i).congr fun a ha => ?_
    unfold next
    rw [hsame i a ha a (hholds.mem_parts ha)]
  · intro i
    rw [← hcontents i]
    refine List.map_congr_left fun a ha => ?_
    obtain ⟨fields, hfields⟩ := hholds.isEntry ha
    refine contents_of_unlinked hfields fun b hb => ?_
    rw [hsame i a ha b hb]

/-- A block that no listed entry is made of can be written. -/
theorem Represents.put (h : s.Represents lists cache) (block : Block)
    (hother : ∀ i, ∀ b ∈ lists i, a ∉ s.parts b) : (s.put a block).Represents lists cache := by
  refine h.frame rfl fun i b hb c hc => Function.update_of_ne ?_ _ _
  intro heq
  exact hother i b hb (heq ▸ hc)

/-- What was not allocated can be. -/
theorem Represents.malloc (h : s.Represents lists cache) (hunused : s.blocks a = .unused)
    (block : Block) : (s.put a block).Represents lists cache :=
  h.put block fun _ _ hb hmem => (h.1.used hb hmem).1 hunused

theorem Represents.chain (h : s.Represents lists cache) (i : Fin maxCache) :
    s.Chain (lists i) (cache.buckets i) := ⟨h.1.linked i, h.2 i⟩

/-! ### Adding an entry -/

/-- An entry in no list, with strings of its own. -/
structure Loose (s : CacheHeap) (lists : Fin maxCache → List Nat) (a : Nat) (e : CacheEntry) :
    Prop where
  contents : s.contents a = some e
  apart : (s.parts a).Nodup
  own : ∀ i, ∀ b ∈ lists i, ∀ x ∈ s.parts a, x ∉ s.parts b

namespace Loose

theorem mem_parts (h : s.Loose lists a e) : a ∈ s.parts a := by
  obtain ⟨fields, hfields, -⟩ := contents_eq_some_iff.mp h.contents
  rw [parts_entry hfields]
  simp

theorem not_mem (h : s.Loose lists a e) (hholds : s.Holds lists) (i : Fin maxCache) :
    a ∉ lists i :=
  fun hmem => h.own i a hmem a h.mem_parts (hholds.mem_parts hmem)

end Loose

/-- A loose entry whose field is the head of a bucket is put in front of it. -/
theorem Represents.push (h : s.Represents lists cache) (hloose : s.Loose lists a e)
    (hfields : s.blocks a = .entry fields) (hnext : fields.next = s.buckets i) :
    Represents { s with buckets := Function.update s.buckets i (some a) }
      (Function.update lists i (a :: lists i))
      { buckets := Function.update cache.buckets i (e :: cache.buckets i) } := by
  obtain ⟨hholds, hcontents⟩ := h
  -- a listed entry is the new one, or was listed before
  have hcases : ∀ {j b}, b ∈ Function.update lists i (a :: lists i) j →
      (b = a ∧ j = i) ∨ b ∈ lists j := by
    intro j b hb
    by_cases hj : j = i
    · subst hj
      rw [Function.update_self] at hb
      rcases List.mem_cons.mp hb with hnew | hold
      · exact Or.inl ⟨hnew, rfl⟩
      · exact Or.inr hold
    · rw [Function.update_of_ne hj] at hb
      exact Or.inr hb
  refine ⟨⟨?_, ?_, ?_, ?_, ?_, ?_⟩, ?_⟩
  · intro j
    show Function.update s.buckets i (some a) j = _
    by_cases hj : j = i
    · subst hj
      rw [Function.update_self, Function.update_self]
      rfl
    · rw [Function.update_of_ne hj, Function.update_of_ne hj]
      exact hholds.head j
  · intro j
    by_cases hj : j = i
    · subst hj
      rw [Function.update_self]
      refine ⟨?_, hholds.linked j⟩
      show (s.blocks a).asEntry.map HeapEntry.next = _
      rw [hfields, ← hholds.head j, ← hnext]
      rfl
    · rw [Function.update_of_ne hj]
      exact hholds.linked j
  · intro j k b hj hk
    rcases hcases hj with ⟨rfl, rfl⟩ | hold
    · rcases hcases hk with ⟨-, rfl⟩ | hold
      · rfl
      · exact absurd hold (hloose.not_mem hholds k)
    · rcases hcases hk with ⟨rfl, rfl⟩ | hold'
      · exact absurd hold (hloose.not_mem hholds j)
      · exact hholds.disjoint j k b hold hold'
  · intro j b hb fields₁ hfields₁
    rcases hcases hb with ⟨rfl, rfl⟩ | hb
    · obtain ⟨fields₂, hfields₂, -, -, hdomain, hrecord⟩ :=
        contents_eq_some_iff.mp hloose.contents
      rw [show s.blocks b = _ from hfields₁, Block.entry.injEq] at hfields₂
      subst hfields₂
      exact ⟨by simp [hdomain], by simp [hrecord]⟩
    · exact hholds.strings j b hb fields₁ hfields₁
  · intro j b hb
    rcases hcases hb with ⟨rfl, rfl⟩ | hb
    · exact hloose.apart
    · exact hholds.apart j b hb
  · intro j k b c x hb hc hxb hxc
    rcases hcases hb with ⟨rfl, rfl⟩ | hold
    · rcases hcases hc with ⟨rfl, rfl⟩ | hold
      · rfl
      · exact absurd hxc (hloose.own k c hold x hxb)
    · rcases hcases hc with ⟨rfl, rfl⟩ | hold'
      · exact absurd hxb (hloose.own j b hold x hxc)
      · exact hholds.own j k b c x hold hold' hxb hxc
  · intro j
    show (Function.update lists i (a :: lists i) j).map s.contents
      = (Function.update cache.buckets i (e :: cache.buckets i) j).map some
    by_cases hj : j = i
    · subst hj
      rw [Function.update_self, Function.update_self, List.map_cons, List.map_cons,
        hcontents j, hloose.contents]
    · rw [Function.update_of_ne hj, Function.update_of_ne hj]
      exact hcontents j

theorem parts_put (hfields : s.blocks a = .entry fields) (ttl timestamp : Int)
    (next : Option Nat) :
    (s.put a (.entry { fields with ttl, timestamp, next })).parts = s.parts := by
  funext b
  show Block.parts b (Function.update s.blocks a _ b) = Block.parts b (s.blocks b)
  by_cases hb : b = a
  · rw [hb, Function.update_self, hfields]
    rfl
  · rw [Function.update_of_ne hb]

/-- What `addCacheEntry` does with a loose entry: nothing, or it becomes the first of its
bucket. -/
inductive Adds (s : CacheHeap) (lists : Fin maxCache → List Nat) (cache : DNSCache) (now : Int)
    (a : Nat) (e : CacheEntry) : CacheHeap → Bool → Prop
  | refused
      (h : DnsServer.bucketHolds e.domainName (cache.buckets (hashFunction e.domainName)) = true) :
      Adds s lists cache now a e s false
  | inserted {s₁ : CacheHeap}
      (h : DnsServer.bucketHolds e.domainName (cache.buckets (hashFunction e.domainName)) = false)
      (hrepresents : s₁.Represents
        (Function.update lists (hashFunction e.domainName) (a :: lists (hashFunction e.domainName)))
        (DnsServer.addCacheEntry now cache e))
      (hfrees : s₁.frees = s.frees) (hsame : ∀ b, b ≠ a → s₁.blocks b = s.blocks b)
      (hentry : ∃ fields, s₁.blocks a = .entry fields) (hparts : s₁.parts = s.parts) :
      Adds s lists cache now a e s₁ true

/-- A loose entry stays loose when its times and link are written. -/
theorem Loose.put (h : s.Loose lists a e) (hfields : s.blocks a = .entry fields)
    (ttl timestamp : Int) (next : Option Nat) :
    (s.put a (.entry { fields with ttl, timestamp, next })).Loose lists a
      { e with ttl, timestamp } := by
  have hparts := parts_put hfields ttl timestamp next
  refine ⟨contents_put_self h.contents hfields ttl timestamp next, ?_, ?_⟩
  · rw [hparts]
    exact h.apart
  · rw [hparts]
    exact h.own

theorem settles_addCacheEntry (h : s.Represents lists cache) (hloose : s.Loose lists a e)
    (now : Int) :
    ∃ s₁ inserted, Settles (fun fuel => s.addCacheEntry fuel now a) (done (s₁, inserted)) ∧
      Adds s lists cache now a e s₁ inserted := by
  obtain ⟨fields, hfields, -, -, hdomain, hrecord⟩ := contents_eq_some_iff.mp hloose.contents
  have hwalk := settles_bucketHolds (h.chain (hashFunction e.domainName)) e.domainName
  rw [← h.1.head] at hwalk
  simp only [addCacheEntry, read_eq hfields, readString_eq hdomain, done_bind]
  rcases hholds : DnsServer.bucketHolds e.domainName (cache.buckets (hashFunction e.domainName))
    with _ | _
  · rw [hholds] at hwalk
    have hput := hloose.put hfields ttlValueCache now (s.buckets (hashFunction e.domainName))
    have hself : (s.put a (.entry { fields with
        ttl := ttlValueCache, timestamp := now
        next := s.buckets (hashFunction e.domainName) })).blocks a = _ :=
      Function.update_self _ _ _
    have hother := asString_put hfields { fields with
      ttl := ttlValueCache, timestamp := now, next := s.buckets (hashFunction e.domainName) }
    refine ⟨s.link (hashFunction e.domainName) a
      { fields with timestamp := now, ttl := ttlValueCache }, true, ?_,
      Adds.inserted hholds ?_ rfl ?_ ⟨_, hself⟩ (parts_put hfields _ _ _)⟩
    · refine hwalk.andThen (g := fun _ holds => if holds = true then _ else _)
        (Settles.of_eq fun fuel => ?_)
      have hd : (s.link (hashFunction e.domainName) a
          { fields with timestamp := now, ttl := ttlValueCache }).readString fields.domainName
            = done e.domainName := readString_eq ((hother fields.domainName).trans hdomain)
      have hr : (s.link (hashFunction e.domainName) a
          { fields with timestamp := now, ttl := ttlValueCache }).readString fields.recordValue
            = done e.recordValue := readString_eq ((hother fields.recordValue).trans hrecord)
      simp only [Bool.false_eq_true, if_false, hd, hr, done_bind, pure_eq]
    · have hadded : DnsServer.addCacheEntry now cache e = _ := if_neg (by rw [hholds]; simp)
      rw [hadded]
      exact (h.put _ fun j b hb hmem => hloose.own j b hb a hloose.mem_parts hmem).push hput
        hself rfl
    · exact fun b hb => Function.update_of_ne hb _ _
  · rw [hholds] at hwalk
    exact ⟨s, false, hwalk.andThen (Settles.done _), Adds.refused hholds⟩

/-! ### Looking an entry up -/

/-- The lists are kept where links, parts and strings are. -/
theorem Holds.congr_views (h : s.Holds lists) (hbuckets : s₁.buckets = s.buckets)
    (hnext : s₁.next = s.next) (hparts : s₁.parts = s.parts)
    (hstring : ∀ b, (s₁.blocks b).asString = (s.blocks b).asString) : s₁.Holds lists := by
  refine ⟨?_, ?_, h.disjoint, ?_, ?_, ?_⟩
  · rw [hbuckets]
    exact h.head
  · rw [hnext]
    exact h.linked
  · intro i a ha fields₁ hfields₁
    obtain ⟨fields, hfields⟩ := h.isEntry ha
    have hsame := congrFun hparts a
    rw [parts_entry hfields₁, parts_entry hfields] at hsame
    simp only [List.cons.injEq, and_true] at hsame
    rw [hsame.1, hsame.2, hstring, hstring]
    exact h.strings i a ha fields hfields
  · rw [hparts]
    exact h.apart
  · rw [hparts]
    exact h.own

/-- A listed entry is touched, and its bucket is what it is in the cache. -/
theorem Represents.touch {bucket : List CacheEntry} (h : s.Represents lists cache)
    (hfields : s.blocks a = .entry fields) (ha : a ∈ lists i)
    (hbucket : (lists i).map (s.put a (.entry { fields with timestamp := now })).contents
      = bucket.map some) :
    (s.put a (.entry { fields with timestamp := now })).Represents lists
      { buckets := Function.update cache.buckets i bucket } := by
  obtain ⟨hholds, hcontents⟩ := h
  refine ⟨hholds.congr_views rfl ?_ (parts_put hfields _ _ _) (asString_put hfields _), ?_⟩
  · have hnext : s.next a = some fields.next := by
      unfold next
      rw [hfields]
      rfl
    have hput := @next_put s a { fields with timestamp := now } fields.next
    rw [← hnext, Function.update_eq_self] at hput
    exact hput
  · intro j
    show _ = (Function.update cache.buckets i bucket j).map some
    by_cases hj : j = i
    · subst hj
      rw [Function.update_self]
      exact hbucket
    · rw [Function.update_of_ne hj, ← hcontents j]
      exact map_contents_put hfields _ fun hmem => hj (hholds.disjoint j i a hmem ha)

theorem settles_printDNSCache (h : s.Represents lists cache) (now : Int) :
    Settles (fun fuel => s.printDNSCache fuel now) (done (DnsServer.printDNSCache now cache)) := by
  have hloop : ∀ (is : List (Fin maxCache)) (lines : List CacheLine),
      Settles (fun fuel => is.foldlM
          (fun lines i => do return lines ++ (← s.printChain now fuel (s.buckets i))) lines)
        (done (lines ++ is.flatMap fun i => (cache.buckets i).filterMap (cacheLine now))) := by
    intro is
    induction is with
    | nil =>
        intro lines
        rw [List.flatMap_nil, List.append_nil]
        exact Settles.done lines
    | cons i is ih =>
        intro lines
        have hbucket := settles_printChain (h.chain i) now
        rw [← h.1.head] at hbucket
        rw [List.flatMap_cons, ← List.append_assoc]
        simp only [List.foldlM_cons]
        refine Settles.andThen (g := fun fuel lines => is.foldlM
          (fun lines i => do return lines ++ (← s.printChain now fuel (s.buckets i))) lines) ?_
          (ih _)
        exact hbucket.andThen (g := fun _ more => done (lines ++ more)) (Settles.done _)
  exact hloop (List.finRange maxCache) []

/-- The cleaning, with what it has done to the other blocks. -/
theorem settles_dnsCacheCleanUp (h : s.Represents lists cache) (now : Int) :
    ∃ s₁, Settles (fun fuel => dnsCacheCleanUp fuel now s) (done s₁) ∧
      s₁.Represents (fun i => (lists i).filter fun a => !s.expired now a)
        (DnsServer.dnsCacheCleanUp now cache) ∧
      Cleans s s₁ (s.expiredEntries lists now) := by
  obtain ⟨s₁, hsettles, hrepresents⟩ := represents_cleanUp h now
  obtain ⟨s₂, hsettles₂, -, hcleans⟩ := h.1.cleanUp now
  have heq := done.inj (hsettles.unique hsettles₂)
  subst heq
  exact ⟨s₁, hsettles, hrepresents, hcleans⟩

/-- What these entries were made of is freed, after what was freed before, and nothing else is
given back or given out; the other strings are what they were, and so are the parts of what is
there. -/
structure Evicts (s s₁ : CacheHeap) (gone : List Nat) : Prop where
  frees : s₁.frees = s.frees ++ gone.flatMap s.parts
  freed : ∀ b, s₁.blocks b = .freed ↔ s.blocks b = .freed ∨ b ∈ gone.flatMap s.parts
  unused : ∀ b, s₁.blocks b = .unused ↔ s.blocks b = .unused
  strings : ∀ b, b ∉ gone.flatMap s.parts → (s₁.blocks b).asString = (s.blocks b).asString
  parts : ∀ a, s₁.blocks a ≠ .freed → s₁.parts a = s.parts a

theorem Cleans.evicts {gone : List Nat} (h : Cleans s s₁ gone)
    (hused : ∀ b ∈ gone.flatMap s.parts, s.blocks b ≠ .unused) : Evicts s s₁ gone := by
  refine ⟨h.frees, fun b => ?_, fun b => ?_, fun b hb => Block.asString_congr (h.kept b hb),
    fun a ha => h.parts_eq ha⟩
  · by_cases hb : b ∈ gone.flatMap s.parts
    · exact ⟨fun _ => Or.inr hb, fun _ => h.freed b hb⟩
    · rw [← Block.unlinked_eq_freed_iff, h.kept b hb, Block.unlinked_eq_freed_iff]
      exact ⟨Or.inl, fun hcase => hcase.resolve_right hb⟩
  · by_cases hb : b ∈ gone.flatMap s.parts
    · rw [h.freed b hb]
      exact ⟨fun heq => by simp at heq, fun heq => absurd heq (hused b hb)⟩
    · rw [← Block.unlinked_eq_unused_iff, h.kept b hb, Block.unlinked_eq_unused_iff]

/-- A write to an entry frees nothing and gives nothing out. -/
theorem Evicts.put {gone : List Nat} (h : Evicts s s₁ gone) (hfields : s₁.blocks a = .entry fields)
    (timestamp : Int) : Evicts s (s₁.put a (.entry { fields with timestamp })) gone := by
  have hsame : ∀ b, b ≠ a → (s₁.put a (.entry { fields with timestamp })).blocks b = s₁.blocks b :=
    fun b hb => Function.update_of_ne hb _ _
  have hself : (s₁.put a (.entry { fields with timestamp })).blocks a = _ :=
    Function.update_self _ _ _
  refine ⟨h.frees, fun b => ?_, fun b => ?_, fun b hb => ?_, fun b hb => ?_⟩
  · rw [← h.freed b]
    by_cases hb : b = a
    · rw [hb, hself, hfields]
      simp
    · rw [hsame b hb]
  · rw [← h.unused b]
    by_cases hb : b = a
    · rw [hb, hself, hfields]
      simp
    · rw [hsame b hb]
  · rw [asString_put hfields]
    exact h.strings b hb
  · rw [parts_put hfields]
    refine h.parts b fun hfreed => hb ?_
    have hne : b ≠ a := by
      intro heq
      rw [heq, hfields] at hfreed
      simp at hfreed
    rw [hsame b hne, hfreed]

theorem Holds.expired_used (h : s.Holds lists) (now : Int) :
    ∀ b ∈ (s.expiredEntries lists now).flatMap s.parts,
      s.blocks b ≠ .unused ∧ s.blocks b ≠ .freed := by
  intro b hb
  obtain ⟨a, ha, hb⟩ := List.mem_flatMap.mp hb
  obtain ⟨i, -, ha⟩ := List.mem_flatMap.mp ha
  exact h.used (List.mem_filter.mp ha).1 hb

theorem readValue_some {value : Bytes} (h : s.readString a = done value) :
    s.readValue (some a) = done (some value) := by
  show (s.readString a >>= fun value => done (some value)) = _
  rw [h, done_bind]

/-- `lookupDNSCache` prints the cache, cleans it, and gives out the value of the entry it
touches. -/
theorem settles_lookupDNSCache (h : s.Represents lists cache) (printNow cleanNow now : Int)
    (d : Bytes) :
    ∃ s₁ found, Settles (fun fuel => s.lookupDNSCache fuel printNow cleanNow now d)
        (done (s₁, DnsServer.printDNSCache printNow cache, found)) ∧
      s₁.Represents (fun i => (lists i).filter fun a => !s.expired cleanNow a)
        (DnsServer.lookupDNSCache cleanNow now cache d).1 ∧
      s₁.readValue found = done (DnsServer.lookupDNSCache cleanNow now cache d).2 ∧
      Evicts s s₁ (s.expiredEntries lists cleanNow) := by
  obtain ⟨s₁, hclean, hrepresents, hcleans⟩ := settles_dnsCacheCleanUp h cleanNow
  have hevicts := hcleans.evicts fun b hb => (h.1.expired_used cleanNow b hb).1
  obtain ⟨s₂, found, hwalk, hlooks⟩ :=
    settles_lookupChain (hrepresents.chain (hashFunction d)) now d
  rw [← hrepresents.1.head] at hwalk
  have hrun : Settles (fun fuel => s.lookupDNSCache fuel printNow cleanNow now d)
      (done (s₂, DnsServer.printDNSCache printNow cache, found)) := by
    unfold lookupDNSCache
    exact (settles_printDNSCache h printNow).andThen (hclean.andThen
      (g := fun fuel s => s.lookupChain now d fuel (s.buckets (hashFunction d)) >>= _)
      (hwalk.andThen (g := fun _ r => done (r.1, _, r.2)) (Settles.done _)))
  refine ⟨s₂, found, hrun, ?_⟩
  unfold DnsServer.lookupDNSCache
  dsimp only
  rcases hlooks with hmissed | ⟨hfound, hmem, hfields, hvalue, hcontents⟩
  · rw [hmissed]
    exact ⟨hrepresents, rfl, hevicts⟩
  · rw [hfound]
    refine ⟨hrepresents.touch hfields hmem hcontents, ?_, hevicts.put hfields _⟩
    exact readValue_some (readString_eq ((asString_put hfields _ _).trans hvalue))

end CacheHeap

end DnsServer
