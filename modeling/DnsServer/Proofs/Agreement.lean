/-
What is cached agrees with the trie.

An entry comes into the cache on two paths.  On one its value is the trie's for
the name it is kept under, or another entry's for that name; on the other it is
whatever was forwarded, but then the search for its name found no record.  So
every entry whose name leads to a record carries that record's value, and no
forwarded address ever stands in front of a local one.

Redirection keeps the invariant because the entry returned is kept under the name
it was found by, the server's, and not under the name asked for.
-/
import DnsServer.Proofs.Cache
import DnsServer.Proofs.Search
import DnsServer.Code.MainDns

namespace DnsServer

open Call Runs

theorem not_findsRecord {root : TrieNode} {domainName : Bytes} {fuel : Nat} {r : SearchResult}
    (h : searchTrie fuel root (extractWordsFromDomain domainName) = done r)
    (hr : ∀ value, r ≠ .record value) (value : Bytes) : ¬ FindsRecord root domainName value := by
  intro hfinds
  have heq := (searchTrie_eq_walk h).symm.trans (findsRecord_iff.mp hfinds)
  rw [done.injEq] at heq
  exact hr value heq

/-! ### The cache -/

/-- The entry carries the value of the record its name leads to, if it leads to one. -/
def EntryAgrees (root : TrieNode) (entry : CacheEntry) : Prop :=
  ∀ value, FindsRecord root entry.domainName value → entry.recordValue = value

/-- Every entry does. -/
def Agrees (root : TrieNode) (cache : DNSCache) : Prop :=
  ∀ i, ∀ entry ∈ cache.buckets i, EntryAgrees root entry

variable {root : TrieNode} {cache : DNSCache}

theorem Agrees.start : Agrees root initializeDNSCache := fun _ _ h => absurd h List.not_mem_nil

theorem Agrees.cleanUp (h : Agrees root cache) (now : Int) :
    Agrees root (dnsCacheCleanUp now cache) := by
  intro i entry he
  rw [dnsCacheCleanUp_buckets] at he
  exact h i entry (List.mem_filter.mp he).1

theorem Agrees.add (h : Agrees root cache) {entry : CacheEntry} (hentry : EntryAgrees root entry)
    (now : Int) : Agrees root (addCacheEntry now cache entry) := by
  intro i e he
  rw [addCacheEntry_buckets] at he
  rcases HashTable.mem_insertNew he with rfl | hold
  · exact hentry
  · exact h i e hold

/-- A lookup leaves the cache in agreement, and so is the value it answers. -/
theorem Agrees.lookup (h : Agrees root cache) (cleanNow now : Int) (domainName : Bytes) :
    Agrees root (lookupDNSCache cleanNow now cache domainName).1 ∧
      ∀ answer, (lookupDNSCache cleanNow now cache domainName).2 = some answer →
        ∀ value, FindsRecord root domainName value → answer = value := by
  obtain ⟨hanswer, hbuckets⟩ := lookupDNSCache_eq cleanNow now cache domainName
  have hclean := h.cleanUp cleanNow
  refine ⟨?_, ?_⟩
  · intro i e he
    rw [hbuckets] at he
    rcases HashTable.mem_modify he with hold | ⟨e', he', -, rfl⟩
    · exact hclean i e hold
    · exact hclean i e' he'
  · intro answer heq value hfinds
    rw [hanswer] at heq
    obtain ⟨entry, hfind, rfl⟩ := Option.map_eq_some_iff.mp heq
    obtain ⟨hmem, rfl⟩ := HashTable.find_eq_some hfind
    exact hclean _ entry hmem value hfinds

/-! ### Looking a domain up -/

/-- The two ways a call answers: from the cache, or from the trie. -/
theorem retriveValue_succ (fuel : Nat) (root : TrieNode) (domainName : Bytes)
    (calls : Nat → CallEnv) (cache : DNSCache) :
    retriveValue (fuel + 1) root domainName calls cache =
      match lookupDNSCache (calls 0).cleanNow (calls 0).touchNow cache domainName with
      | (cache, some value) => done (some ((calls 0).entry domainName value), cache)
      | (cache, none) =>
          searchTrie fuel root (extractWordsFromDomain domainName) >>= fun result =>
            match result with
            | .record value => done (some ((calls 0).entry domainName value), cache)
            | .redirect ns =>
                retriveValue fuel root (if (calls 0).coin then ns.domain1 else ns.domain2)
                  (fun i => calls (i + 1)) cache
            | .missing => done (none, cache) := by
  rw [retriveValue]
  rfl

/-- On a cache miss, what a call comes to once its search has ended. -/
def afterSearch (fuel : Nat) (root : TrieNode) (domainName : Bytes) (calls : Nat → CallEnv)
    (cache : DNSCache) : Call SearchResult → Call (Option CacheEntry × DNSCache)
  | .running => .running
  | .undefined => .undefined
  | .done (.record value) => .done (some ((calls 0).entry domainName value), cache)
  | .done (.redirect ns) =>
      retriveValue fuel root (if (calls 0).coin then ns.domain1 else ns.domain2)
        (fun i => calls (i + 1)) cache
  | .done .missing => .done (none, cache)

theorem retriveValue_miss {fuel : Nat} (root : TrieNode) {domainName : Bytes}
    (calls : Nat → CallEnv) {cache cache₁ : DNSCache}
    (hmiss : lookupDNSCache (calls 0).cleanNow (calls 0).touchNow cache domainName
      = (cache₁, none)) :
    retriveValue (fuel + 1) root domainName calls cache =
      afterSearch fuel root domainName calls cache₁
        (searchTrie fuel root (extractWordsFromDomain domainName)) := by
  rw [retriveValue_succ, hmiss]
  dsimp only
  rcases searchTrie fuel root (extractWordsFromDomain domainName) with _ | _ | _ | ns | _ <;> rfl

/-- With enough fuel the search has ended. -/
theorem retriveValue_walk (root : TrieNode) {domainName : Bytes} (calls : Nat → CallEnv)
    {cache cache₁ : DNSCache}
    (hmiss : lookupDNSCache (calls 0).cleanNow (calls 0).touchNow cache domainName
      = (cache₁, none)) :
    ∃ enough, ∀ fuel, enough ≤ fuel → retriveValue (fuel + 1) root domainName calls cache =
      afterSearch fuel root domainName calls cache₁
        (walk root (extractWordsFromDomain domainName).reverse) := by
  obtain ⟨enough, henough⟩ := settles_searchTrie root (extractWordsFromDomain domainName)
  refine ⟨enough, ?_⟩
  intro fuel hle
  have hsearch : searchTrie fuel root (extractWordsFromDomain domainName) = _ := henough fuel hle
  rw [retriveValue_miss root calls hmiss, hsearch]

theorem retriveValue_mono (root : TrieNode) (domainName : Bytes) (calls : Nat → CallEnv)
    (cache : DNSCache) : Mono (fun fuel => retriveValue fuel root domainName calls cache) := by
  intro fuel
  induction fuel generalizing domainName calls cache with
  | zero => intro fuel' x _ hx hne; exact absurd hx.symm hne
  | succ fuel ih =>
      intro fuel' x hle hx hne
      obtain ⟨fuel', rfl⟩ : ∃ f, fuel' = f + 1 := ⟨fuel' - 1, by omega⟩
      simp only [retriveValue_succ] at hx ⊢
      rcases hlookup : lookupDNSCache (calls 0).cleanNow (calls 0).touchNow cache domainName
        with ⟨cache₁, _ | value⟩
      · simp only [hlookup] at hx ⊢
        have hsearch := searchTrie_mono root (extractWordsFromDomain domainName) fuel fuel'
        rcases hr : searchTrie fuel root (extractWordsFromDomain domainName) with _ | _ | result
        · simp only [hr, running_bind] at hx
          exact absurd hx.symm hne
        · simp only [hr, undefined_bind] at hx
          simp only [hsearch _ (by omega) hr (by simp), undefined_bind]
          exact hx
        · simp only [hr, hsearch _ (by omega) hr (by simp), done_bind] at hx ⊢
          rcases result with value | ns | _
          · exact hx
          · exact ih _ _ _ fuel' x (by omega) hx hne
          · exact hx
      · simp only [hlookup] at hx ⊢
        exact hx

/-- **What a lookup returns agrees with the trie**, and it returns nothing only for a name
that leads to no record. -/
theorem retriveValue_agrees {fuel : Nat} :
    ∀ {domainName : Bytes} {calls : Nat → CallEnv} {cache cache' : DNSCache}
      {found : Option CacheEntry},
      retriveValue fuel root domainName calls cache = done (found, cache') →
      Agrees root cache →
      Agrees root cache' ∧ (∀ entry, found = some entry → EntryAgrees root entry) ∧
        (found = none → ∀ value, ¬ FindsRecord root domainName value) := by
  induction fuel with
  | zero => intro _ _ _ _ _ h; simp [retriveValue] at h
  | succ fuel ih =>
      intro domainName calls cache cache' found h hcache
      obtain ⟨hafter, hanswer⟩ :=
        hcache.lookup (calls 0).cleanNow (calls 0).touchNow domainName
      rw [retriveValue_succ] at h
      rcases hlookup : lookupDNSCache (calls 0).cleanNow (calls 0).touchNow cache domainName
        with ⟨cache₁, _ | value⟩
      · rw [hlookup] at h hafter
        obtain ⟨result, hsearch, hrest⟩ := bind_eq_done.mp h
        rcases result with value | ns | _
        · simp only [done.injEq, Prod.mk.injEq] at hrest
          obtain ⟨rfl, rfl⟩ := hrest
          refine ⟨hafter, ?_, fun hnone => by simp at hnone⟩
          intro entry hentry
          rw [Option.some.injEq] at hentry
          subst hentry
          intro v hv
          have heq := (searchTrie_eq_walk hsearch).symm.trans (findsRecord_iff.mp hv)
          simp only [done.injEq, SearchResult.record.injEq] at heq
          exact heq
        · obtain ⟨hend, hfound, -⟩ := ih hrest hafter
          exact ⟨hend, hfound, fun _ => not_findsRecord hsearch (by simp)⟩
        · simp only [done.injEq, Prod.mk.injEq] at hrest
          obtain ⟨rfl, rfl⟩ := hrest
          exact ⟨hafter, fun entry hentry => by simp at hentry,
            fun _ => not_findsRecord hsearch (by simp)⟩
      · rw [hlookup] at h hafter hanswer
        simp only [done.injEq, Prod.mk.injEq] at h
        obtain ⟨rfl, rfl⟩ := h
        refine ⟨hafter, ?_, fun hnone => by simp at hnone⟩
        intro entry hentry
        rw [Option.some.injEq] at hentry
        subst hentry
        exact fun v hv => hanswer value rfl v hv

/-- A name that leads to a record is answered with its value, cached or not. -/
theorem retriveValue_record {domainName value : Bytes} (h : Agrees root cache)
    (hfinds : FindsRecord root domainName value) (calls : Nat → CallEnv) :
    ∃ cache', Settles (fun fuel => retriveValue fuel root domainName calls cache)
      (done (some ((calls 0).entry domainName value), cache')) := by
  obtain ⟨enough, henough⟩ := hfinds
  obtain ⟨-, hanswer⟩ := h.lookup (calls 0).cleanNow (calls 0).touchNow domainName
  rcases hlookup : lookupDNSCache (calls 0).cleanNow (calls 0).touchNow cache domainName
    with ⟨cache₁, _ | answer⟩
  · refine ⟨cache₁, enough + 1, ?_⟩
    intro fuel hle
    obtain ⟨fuel, rfl⟩ : ∃ f, fuel = f + 1 := ⟨fuel - 1, by omega⟩
    simp only [retriveValue_succ, hlookup, henough fuel (by omega), done_bind]
  · rw [hlookup] at hanswer
    have hvalue : answer = value := hanswer answer rfl value ⟨enough, henough⟩
    refine ⟨cache₁, 1, ?_⟩
    intro fuel hle
    obtain ⟨fuel, rfl⟩ : ∃ f, fuel = f + 1 := ⟨fuel - 1, by omega⟩
    simp only [retriveValue_succ, hlookup, hvalue]

/-! ### Requests -/

/-- A request is handled: the cache before it and after. -/
def Handles (root : TrieNode) (cache : DNSCache) (request : ClientRequest) (cache' : DNSCache) :
    Prop :=
  ∃ response, Settles (fun fuel => handleClient fuel root cache request)
    (done (response, cache'))

/-- The string in the handler's buffer. -/
def ClientRequest.query (request : ClientRequest) : Bytes :=
  cstr ((request.sent.getD []).take bufferSize)

/-- What handling a request can do: leave the cache alone, or look a name up and then add
what was found, add what was forwarded, or add nothing. -/
theorem handleClient_cases {fuel : Nat} {request : ClientRequest} {response : Option Bytes}
    {cache' : DNSCache} (h : handleClient fuel root cache request = done (response, cache')) :
    cache' = cache ∨
    ∃ found cache₁,
      retriveValue fuel root request.query request.calls cache = done (found, cache₁) ∧
      ((∃ entry, found = some entry ∧ response = some entry.recordValue ∧
          cache' = addCacheEntry request.addNow cache₁ entry) ∨
        (found = none ∧ cstr request.forwarded = [] ∧
          response = some (ascii "Record not found") ∧ cache' = cache₁) ∨
        (found = none ∧ cstr request.forwarded ≠ [] ∧
          response = some (cstr request.forwarded) ∧
          cache' = addCacheEntry request.addNow cache₁
            (dnsCreateNewEntry request.query (cstr request.forwarded)))) := by
  unfold handleClient at h
  rcases hsent : request.sent with _ | sent
  · simp only [hsent, done.injEq, Prod.mk.injEq] at h
    exact Or.inl h.2.symm
  simp only [hsent] at h
  by_cases hempty : sent.take bufferSize = []
  · simp only [if_pos hempty, done.injEq, Prod.mk.injEq] at h
    exact Or.inl h.2.symm
  rw [if_neg hempty] at h
  by_cases hfull : (sent.take bufferSize).length = bufferSize
  · rw [if_pos hfull] at h
    simp at h
  rw [if_neg hfull] at h
  by_cases htrie : cstr (sent.take bufferSize) = ascii "trie"
  · simp only [if_pos htrie, done.injEq, Prod.mk.injEq] at h
    exact Or.inl h.2.symm
  rw [if_neg htrie] at h
  obtain ⟨⟨found, cache₁⟩, hfound, hrest⟩ := bind_eq_done.mp h
  have hquery : request.query = cstr (sent.take bufferSize) := by
    rw [ClientRequest.query, hsent, Option.getD_some]
  rw [hquery]
  refine Or.inr ⟨found, cache₁, hfound, ?_⟩
  rcases found with _ | entry
  · by_cases hip : cstr request.forwarded = []
    · simp only [if_pos hip, pure_eq, done.injEq, Prod.mk.injEq] at hrest
      exact Or.inr (Or.inl ⟨rfl, hip, hrest.1.symm, hrest.2.symm⟩)
    · simp only [if_neg hip, pure_eq, done.injEq, Prod.mk.injEq] at hrest
      exact Or.inr (Or.inr ⟨rfl, hip, hrest.1.symm, hrest.2.symm⟩)
  · simp only [pure_eq, done.injEq, Prod.mk.injEq] at hrest
    exact Or.inl ⟨entry, rfl, hrest.1.symm, hrest.2.symm⟩

theorem Agrees.handle {request : ClientRequest} {cache' : DNSCache} (h : Agrees root cache)
    (hhandle : Handles root cache request cache') : Agrees root cache' := by
  obtain ⟨response, enough, henough⟩ := hhandle
  rcases handleClient_cases (henough enough (Nat.le_refl enough)) with
    rfl | ⟨found, cache₁, hfound, hadded⟩
  · exact h
  obtain ⟨hafter, hentry, hnone⟩ := retriveValue_agrees hfound h
  rcases hadded with ⟨entry, heq, -, rfl⟩ | ⟨-, -, -, rfl⟩ | ⟨heq, -, -, rfl⟩
  · exact hafter.add (hentry entry heq) request.addNow
  · exact hafter
  · -- what was forwarded is kept under a name that leads to no record
    have hentry : EntryAgrees root
        (dnsCreateNewEntry request.query (cstr request.forwarded)) := by
      intro value hfinds
      exact absurd hfinds (hnone heq value)
    exact hafter.add hentry request.addNow

theorem handleClient_mono (root : TrieNode) (cache : DNSCache) (request : ClientRequest) :
    Mono (fun fuel => handleClient fuel root cache request) := by
  unfold handleClient
  rcases request.sent with _ | sent
  · exact Mono.const _
  · dsimp only
    split
    · exact Mono.const _
    split
    · exact Mono.const _
    split
    · exact Mono.const _
    · exact Mono.bind (retriveValue_mono root _ _ cache) fun _ => Mono.const _

/-- The cache after requests handled one after another, from an empty one. -/
def CacheReachable (root : TrieNode) (cache : DNSCache) : Prop :=
  Reachable (fun cache => cache = initializeDNSCache) (Handles root) cache

theorem CacheReachable.agrees (h : CacheReachable root cache) : Agrees root cache := by
  refine Reachable.inv (fun s hs => ?_) (fun s request s' hs hstep => hs.handle hstep) h
  rw [hs]
  exact Agrees.start

/--
**Cached and authoritative answers agree.**  However the requests before went, each
entry whose name leads to a record carries that record's value, and a name that
leads to a record is answered with its value as it would be with an empty cache.
-/
theorem retriveValue_cached (root : TrieNode) (cache : DNSCache) (h : CacheReachable root cache) :
    (∀ entry ∈ cache.entries, ∀ value, FindsRecord root entry.domainName value →
      entry.recordValue = value) ∧
    ∀ domainName value, FindsRecord root domainName value → ∀ calls calls',
      ∃ entry entry' cache₁ cache₂,
        Settles (fun fuel => retriveValue fuel root domainName calls cache)
          (done (some entry, cache₁)) ∧
        Settles (fun fuel => retriveValue fuel root domainName calls' initializeDNSCache)
          (done (some entry', cache₂)) ∧
        entry.recordValue = value ∧ entry'.recordValue = value := by
  have hagrees := h.agrees
  refine ⟨?_, ?_⟩
  · intro entry he value hfinds
    obtain ⟨i, hi⟩ := HashTable.mem_entries.mp he
    exact hagrees i entry hi value hfinds
  · intro domainName value hfinds calls calls'
    obtain ⟨cache₁, h₁⟩ := retriveValue_record hagrees hfinds calls
    obtain ⟨cache₂, h₂⟩ := retriveValue_record Agrees.start hfinds calls'
    exact ⟨_, _, cache₁, cache₂, h₁, h₂, rfl, rfl⟩

/-! ### A run of one request -/

/-- A trie with one zone, as `createBranch` lays it out, and one record in it. -/
def exampleTrie : TrieNode :=
  let host : TrieNode :=
    { label := ascii "www", childrens := [], soa := none, ns := none
      records := [{ type := ascii "A", value := some (ascii "192.168.1.10"), ttl := 0 }] }
  let itself : TrieNode :=
    { label := ascii "@", childrens := [], records := [], soa := none
      ns := some { domain1 := ascii "www.example.com", domain2 := ascii "ns2.example.com" } }
  let zone : TrieNode :=
    { label := ascii "example", childrens := [itself, host], records := [], soa := none
      ns := none }
  let top : TrieNode :=
    { label := ascii "com", childrens := [zone], records := [], soa := none, ns := none }
  { label := ascii "root", childrens := [top], records := [], soa := none, ns := none }

/-- The zone's own name, asked for with the coin on its first server. -/
def exampleRequest : ClientRequest :=
  { sent := some (ascii "example.com")
    calls := fun _ => { cleanNow := 0, touchNow := 0, entryNow := 0, coin := true }
    forwarded := [], addNow := 0 }

theorem retriveValue_cached_example :
    ∃ cache, CacheReachable exampleTrie cache ∧
      (∀ entry ∈ cache.entries, ∀ value, FindsRecord exampleTrie entry.domainName value →
        entry.recordValue = value) ∧
      ∀ domainName value, FindsRecord exampleTrie domainName value → ∀ calls calls',
        ∃ entry entry' cache₁ cache₂,
          Settles (fun fuel => retriveValue fuel exampleTrie domainName calls cache)
            (done (some entry, cache₁)) ∧
          Settles (fun fuel => retriveValue fuel exampleTrie domainName calls' initializeDNSCache)
            (done (some entry', cache₂)) ∧
          entry.recordValue = value ∧ entry'.recordValue = value := by
  -- the redirection is followed, and what it found is kept under the server's name
  obtain ⟨cache, hhandle⟩ : ∃ cache, Handles exampleTrie initializeDNSCache exampleRequest cache :=
    ⟨_, _, (handleClient_mono _ _ _).settles_done 9 rfl⟩
  have hstart : CacheReachable exampleTrie initializeDNSCache := Reachable.start rfl
  have hreachable : CacheReachable exampleTrie cache := hstart.next hhandle
  exact ⟨cache, hreachable, retriveValue_cached exampleTrie cache hreachable⟩

end DnsServer
