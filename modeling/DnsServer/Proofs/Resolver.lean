/-
The server is a resolver.

Looking a name up in the cache and the trie finds what the resolver finds in its memory and
its table of zones, and the handler does with it what the resolver does.  So the server's runs
and the resolver's are the same: the same answers to the same requests, and in the end the
cache stands for what is remembered.
-/
import DnsServer.Proofs.Expiry
import DnsServer.Proofs.Zones
import DnsServer.Spec.Resolver

namespace DnsServer

open Call Runs

variable {shell : Shell} {root : TrieNode} {cache cache' : DNSCache} {table : List ZoneData}

/-! ### Looking a name up -/

/-- The search comes to what the zones say of the name. -/
theorem settles_landing (hroot : buildTrie shell = .ok root) (htable : zoneTable shell = .ok table)
    (name : Bytes) : Settles (fun fuel => searchTrie fuel root (extractWordsFromDomain name))
      (landing table (question name)) := by
  rw [← walk_zoneTable hroot htable]
  exact settles_searchTrie root (extractWordsFromDomain name)

/-- What the resolver is told of an entry. -/
def CacheEntry.pair (entry : CacheEntry) : Bytes × Bytes := (entry.domainName, entry.recordValue)

theorem StandsFor.lookup {m : CacheMap} (h : StandsFor cache m) {cleanNow now : Int} {name : Bytes}
    {answer : Option Bytes}
    (hlookup : lookupDNSCache cleanNow now cache name = (cache', answer)) :
    ∃ m', StandsFor cache' m' ∧ m.lookup cleanNow now name = (m', answer) := by
  have hboth := run_simulates h (.lookup name cleanNow now)
  rw [show (CacheOp.lookup name cleanNow now).run cache = (cache', answer) from hlookup] at hboth
  exact ⟨_, hboth.1, Prod.ext rfl hboth.2.symm⟩

theorem StandsFor.add {m : CacheMap} (h : StandsFor cache m) (now : Int) (entry : CacheEntry) :
    StandsFor (addCacheEntry now cache entry) (m.add now entry.domainName entry.recordValue) :=
  (run_simulates h (.add entry now)).1

/-- What a lookup finds, the resolver finds. -/
theorem Retrieves.finds (hroot : buildTrie shell = .ok root) (htable : zoneTable shell = .ok table)
    {name : Bytes} {calls : Nat → CallEnv} {ops : List CacheOp} {found : Option CacheEntry}
    (h : Retrieves root name calls cache ops found cache') :
    ∀ {m}, StandsFor cache m → ∃ m', StandsFor cache' m' ∧
      Resolver.Finds table name calls m (found.map CacheEntry.pair) m' := by
  have hsaid : ∀ {name result}, Settles (fun fuel => searchTrie fuel root
      (extractWordsFromDomain name)) (done result) → landing table (question name) = done result :=
    fun hsearch => Settles.unique (settles_landing hroot htable _) hsearch
  induction h with
  | cached h =>
      intro m hm
      obtain ⟨m', hm', hlookup⟩ := hm.lookup h
      exact ⟨m', hm', .remembered hlookup⟩
  | record h hsearch =>
      intro m hm
      obtain ⟨m', hm', hlookup⟩ := hm.lookup h
      exact ⟨m', hm', .known hlookup (hsaid hsearch)⟩
  | missing h hsearch =>
      intro m hm
      obtain ⟨m', hm', hlookup⟩ := hm.lookup h
      exact ⟨m', hm', .unknown hlookup (hsaid hsearch)⟩
  | redirect h hsearch _ ih =>
      intro m hm
      obtain ⟨m₁, hm₁, hlookup⟩ := hm.lookup h
      obtain ⟨m', hm', hrest⟩ := ih hm₁
      exact ⟨m', hm', .instead hlookup (hsaid hsearch) hrest⟩

/-- What the resolver finds, a lookup finds. -/
theorem Resolver.Finds.retrieves (hroot : buildTrie shell = .ok root)
    (htable : zoneTable shell = .ok table) {name : Bytes} {calls : Nat → CallEnv}
    {m m' : CacheMap} {pair : Option (Bytes × Bytes)}
    (h : Resolver.Finds table name calls m pair m') :
    ∀ {cache}, StandsFor cache m → ∃ ops found cache',
      Retrieves root name calls cache ops found cache' ∧ StandsFor cache' m' ∧
      found.map CacheEntry.pair = pair := by
  have hsaid : ∀ {name result}, landing table (question name) = done result →
      Settles (fun fuel => searchTrie fuel root (extractWordsFromDomain name)) (done result) :=
    fun hzones => hzones ▸ settles_landing hroot htable _
  have hlooks : ∀ {cache m m' cleanNow now name answer}, StandsFor cache m →
      m.lookup cleanNow now name = (m', answer) → ∃ cache',
        lookupDNSCache cleanNow now cache name = (cache', answer) ∧ StandsFor cache' m' := by
    intro cache m m' cleanNow now name answer hm hlookup
    obtain ⟨m₁, hm₁, hsame⟩ :=
      hm.lookup (show lookupDNSCache cleanNow now cache name = (_, _) from rfl)
    rw [hlookup, Prod.mk.injEq] at hsame
    exact ⟨_, Prod.ext rfl hsame.2.symm, hsame.1 ▸ hm₁⟩
  induction h with
  | remembered h =>
      intro cache hm
      obtain ⟨cache', hlookup, hm'⟩ := hlooks hm h
      exact ⟨_, _, cache', .cached hlookup, hm', rfl⟩
  | known h hzones =>
      intro cache hm
      obtain ⟨cache', hlookup, hm'⟩ := hlooks hm h
      exact ⟨_, _, cache', .record hlookup (hsaid hzones), hm', rfl⟩
  | unknown h hzones =>
      intro cache hm
      obtain ⟨cache', hlookup, hm'⟩ := hlooks hm h
      exact ⟨_, _, cache', .missing hlookup (hsaid hzones), hm', rfl⟩
  | instead h hzones _ ih =>
      intro cache hm
      obtain ⟨cache₁, hlookup, hm₁⟩ := hlooks hm h
      obtain ⟨_, found, cache', hrest, hm', hpair⟩ := ih hm₁
      exact ⟨_, found, cache', .redirect hlookup (hsaid hzones) hrest, hm', hpair⟩

/-! ### Serving a client -/

/-- What is made of the lookup's result: what is sent, and the cache then. -/
def ClientRequest.reply (request : ClientRequest) (name : Bytes) :
    Option CacheEntry × DNSCache → Option Bytes × DNSCache
  | (some entry, cache) => (some entry.recordValue, addCacheEntry request.addNow cache entry)
  | (none, cache) =>
      let address := cstr request.forwarded
      if address = [] then (some (ascii "Record not found"), cache)
      else (some address, addCacheEntry request.addNow cache (dnsCreateNewEntry name address))

/-- The handler, by what it hears. -/
theorem handleClient_eq (fuel : Nat) (root : TrieNode) (cache : DNSCache)
    (request : ClientRequest) : handleClient fuel root cache request =
      match heard request.sent with
      | .nothing => .done (none, cache)
      | .full => .undefined
      | .drawing => .done (some (ascii "Trie visualization opened on the server."), cache)
      | .name name => retriveValue fuel root name request.calls cache >>= fun result =>
          .done (request.reply name result) := by
  unfold handleClient heard
  cases request.sent with
  | none => rfl
  | some sent =>
      dsimp only
      by_cases hempty : sent.take bufferSize = []
      · rw [if_pos hempty, if_pos hempty]
      rw [if_neg hempty, if_neg hempty]
      by_cases hfull : (sent.take bufferSize).length = bufferSize
      · rw [if_pos hfull, if_pos hfull]
      rw [if_neg hfull, if_neg hfull]
      by_cases htrie : cstr (sent.take bufferSize) = ascii "trie"
      · rw [if_pos htrie, if_pos htrie]
      rw [if_neg htrie, if_neg htrie]
      dsimp only
      congr 1
      funext result
      obtain ⟨_ | entry, cache⟩ := result
      · rw [ClientRequest.reply]
        by_cases hip : cstr request.forwarded = []
        · rw [if_pos hip, if_pos hip, pure_eq]
        · rw [if_neg hip, if_neg hip, pure_eq]
          rfl
      · rfl

/-- What is made of a result, the resolver makes of it, -/
theorem replies_of_finds {request : ClientRequest} {name : Bytes} {m m' : CacheMap}
    {found : Option CacheEntry} (hm' : StandsFor cache m')
    (h : Resolver.Finds table name request.calls m (found.map CacheEntry.pair) m') :
    ∃ answer after, (request.reply name (found, cache)).1 = some answer ∧
      StandsFor (request.reply name (found, cache)).2 after ∧
      Resolver.Replies table m (request.ask name) answer after := by
  cases found with
  | some entry =>
      exact ⟨entry.recordValue, _, rfl, hm'.add request.addNow entry, .found h⟩
  | none =>
      by_cases hip : cstr request.forwarded = []
      · rw [ClientRequest.reply, if_pos hip]
        exact ⟨_, m', rfl, hm', .nowhere h (if_pos hip)⟩
      · rw [ClientRequest.reply, if_neg hip]
        exact ⟨_, _, rfl, hm'.add request.addNow (dnsCreateNewEntry name (cstr request.forwarded)),
          .elsewhere h (if_neg hip)⟩

/-- and it makes nothing else of it. -/
theorem finds_of_replies {request : ClientRequest} {name answer : Bytes} {m after : CacheMap}
    (h : Resolver.Replies table m (request.ask name) answer after) :
    ∃ pair m', Resolver.Finds table name request.calls m pair m' ∧
      ∀ {cache found}, found.map CacheEntry.pair = pair → StandsFor cache m' →
        (request.reply name (found, cache)).1 = some answer ∧
        StandsFor (request.reply name (found, cache)).2 after := by
  cases h with
  | found h =>
      refine ⟨_, _, h, fun hpair hm' => ?_⟩
      obtain ⟨entry, rfl, hentry⟩ := Option.map_eq_some_iff.mp hpair
      rw [CacheEntry.pair, Prod.mk.injEq] at hentry
      rw [← hentry.1, ← hentry.2]
      exact ⟨rfl, hm'.add request.addNow entry⟩
  | elsewhere h haddress =>
      refine ⟨_, _, h, fun hpair hm' => ?_⟩
      have hip : ¬ cstr request.forwarded = [] := by
        intro hnil
        rw [ClientRequest.ask, if_pos hnil] at haddress
        exact absurd haddress (by simp)
      rw [ClientRequest.ask, if_neg hip, Option.some.injEq] at haddress
      rw [Option.map_eq_none_iff.mp hpair, ClientRequest.reply, if_neg hip, haddress]
      exact ⟨rfl, hm'.add request.addNow (dnsCreateNewEntry name _)⟩
  | nowhere h hnone =>
      refine ⟨_, _, h, fun hpair hm' => ?_⟩
      have hip : cstr request.forwarded = [] := by
        by_contra hne
        rw [ClientRequest.ask, if_neg hne] at hnone
        exact absurd hnone (by simp)
      rw [Option.map_eq_none_iff.mp hpair, ClientRequest.reply, if_pos hip]
      exact ⟨rfl, hm'⟩

/-- A client is served: its request, and what is sent back. -/
def ServesClient (root : TrieNode) (cache : DNSCache) (event : ClientRequest × Option Bytes)
    (cache' : DNSCache) : Prop :=
  Settles (fun fuel => handleClient fuel root cache event.1) (.done (event.2, cache'))

/-- The handler serves a client as the resolver does. -/
theorem ServesClient.resolves (hroot : buildTrie shell = .ok root)
    (htable : zoneTable shell = .ok table) {event : ClientRequest × Option Bytes} {m : CacheMap}
    (hm : StandsFor cache m) (h : ServesClient root cache event cache') :
    ∃ m', Resolver.Step table m event m' ∧ StandsFor cache' m' := by
  obtain ⟨request, answer⟩ := event
  simp only [ServesClient, handleClient_eq] at h
  cases hheard : heard request.sent with
  | nothing =>
      simp only [hheard, Settles.const_iff, done.injEq, Prod.mk.injEq] at h
      obtain ⟨rfl, rfl⟩ := h
      exact ⟨m, .nothing hheard, hm⟩
  | full =>
      simp only [hheard, Settles.const_iff] at h
      exact absurd h (by simp)
  | drawing =>
      simp only [hheard, Settles.const_iff, done.injEq, Prod.mk.injEq] at h
      obtain ⟨rfl, rfl⟩ := h
      exact ⟨m, .drawing hheard, hm⟩
  | name name =>
      simp only [hheard] at h
      obtain ⟨⟨found, cache₁⟩, hfound, hreply⟩ :=
        (Settles.bind_done_iff (retriveValue_mono _ _ _ _)).mp h
      obtain ⟨ops, hops⟩ := settles_iff_retrieves.mp hfound
      obtain ⟨m', hm', hfinds⟩ := hops.finds hroot htable hm
      obtain ⟨text, after, htext, hafter, hreplies⟩ := replies_of_finds hm' hfinds
      rw [hreply] at htext hafter
      dsimp only at htext hafter
      rw [htext]
      exact ⟨after, .name hheard hreplies, hafter⟩

/-- The resolver serves a client as the handler does. -/
theorem Resolver.Step.served (hroot : buildTrie shell = .ok root)
    (htable : zoneTable shell = .ok table) {event : ClientRequest × Option Bytes}
    {m m' : CacheMap} (hm : StandsFor cache m) (h : Resolver.Step table m event m') :
    ∃ cache', ServesClient root cache event cache' ∧ StandsFor cache' m' := by
  cases h with
  | nothing hheard =>
      refine ⟨cache, ?_, hm⟩
      simp only [ServesClient, handleClient_eq, hheard, Settles.const_iff]
  | drawing hheard =>
      refine ⟨cache, ?_, hm⟩
      simp only [ServesClient, handleClient_eq, hheard, Settles.const_iff]
  | @name request name answer _ hheard hreplies =>
      obtain ⟨pair, m₁, hfinds, hreply⟩ := finds_of_replies hreplies
      obtain ⟨ops, found, cache₁, hops, hm₁, hpair⟩ := hfinds.retrieves hroot htable hm
      obtain ⟨htext, hafter⟩ := hreply hpair hm₁
      refine ⟨_, ?_, hafter⟩
      simp only [ServesClient, handleClient_eq, hheard]
      exact (Settles.bind_done_iff (retriveValue_mono _ _ _ _)).mpr
        ⟨(found, cache₁), settles_iff_retrieves.mpr ⟨ops, hops⟩, Prod.ext htext rfl⟩

/--
**The server is a resolver.**  Over the trie that was built, and from the start, it gives the
answers to requests that the resolver gives over the table of the zones, and the cache then
stands for what the resolver remembers; and whatever the resolver may answer, the server does.
-/
theorem server_refines_resolver (hroot : buildTrie shell = .ok root)
    (htable : zoneTable shell = .ok table) (events : List (ClientRequest × Option Bytes))
    (m : CacheMap) :
    Trace (· = FiniteMap.empty) (Resolver.Step table) events m ↔
      ∃ cache, Trace (· = initializeDNSCache) (ServesClient root) events cache ∧
        cache.toMap = m := by
  have hstart : StandsFor initializeDNSCache FiniteMap.empty :=
    ⟨DNSCache.Inv.start, toMap_start⟩
  constructor
  · intro h
    obtain ⟨cache, htrace, -, hmap⟩ := @Trace.simulates _ _ _ _ _ (· = initializeDNSCache)
      (ServesClient root) (fun m cache => StandsFor cache m)
      (fun m hm => ⟨initializeDNSCache, rfl, by rwa [hm]⟩)
      (fun m cache event m' hm hstep => hstep.served hroot htable hm) _ _ h
    exact ⟨cache, htrace, hmap⟩
  · rintro ⟨cache, h, rfl⟩
    obtain ⟨m, htrace, -, hmap⟩ := @Trace.simulates _ _ _ _ _ (· = FiniteMap.empty)
      (Resolver.Step table) StandsFor
      (fun cache hcache => ⟨FiniteMap.empty, rfl, by rwa [hcache]⟩)
      (fun cache m event cache' hm hstep => hstep.resolves hroot htable hm) _ _ h
    rw [hmap]
    exact htrace

/-- A client asks for a name at a time, and asking elsewhere would give this. -/
def nameRequest (name address : Bytes) (now : Int) : ClientRequest where
  sent := some name
  calls := fun _ => { cleanNow := now, touchNow := now, entryNow := now, coin := true }
  forwarded := address
  addNow := now

/-- A host of the first zone is asked for twice, and then a name of no zone. -/
def resolverEvents : List (ClientRequest × Option Bytes) :=
  [(nameRequest (ascii "www.a.com") [] 0, some (ascii "192.168.1.10\n")),
    (nameRequest (ascii "www.a.com") [] 40, some (ascii "192.168.1.10\n")),
    (nameRequest (ascii "www.b.test") (ascii "203.0.113.7") 60, some (ascii "203.0.113.7"))]

theorem server_refines_resolver_twoZones : ∃ root table m, buildTrie twoZones = .ok root ∧
    zoneTable twoZones = .ok table ∧
    Trace (· = FiniteMap.empty) (Resolver.Step table) resolverEvents m := by
  obtain ⟨root, hroot, cache₁, cache₂, cache₃, hfirst, hsecond, hthird⟩ :
      ∃ root, buildTrie twoZones = .ok root ∧ ∃ cache₁ cache₂ cache₃,
        handleClient 9 root initializeDNSCache (nameRequest (ascii "www.a.com") [] 0)
          = .done (some (ascii "192.168.1.10\n"), cache₁) ∧
        handleClient 9 root cache₁ (nameRequest (ascii "www.a.com") [] 40)
          = .done (some (ascii "192.168.1.10\n"), cache₂) ∧
        handleClient 9 root cache₂
            (nameRequest (ascii "www.b.test") (ascii "203.0.113.7") 60)
          = .done (some (ascii "203.0.113.7"), cache₃) := ⟨_, rfl, _, _, _, rfl, rfl, rfl⟩
  obtain ⟨table, htable, -⟩ := exists_zoneTable hroot
  have hserves : ∀ {cache request answer cache'},
      handleClient 9 root cache request = .done (answer, cache') →
        ServesClient root cache (request, answer) cache' :=
    fun h => (handleClient_mono _ _ _).settles_done 9 h
  have hstart : Trace (· = initializeDNSCache) (ServesClient root) [] initializeDNSCache :=
    Trace.start rfl
  have hserved := Trace.step (Trace.step (Trace.step hstart (hserves hfirst)) (hserves hsecond))
    (hserves hthird)
  exact ⟨root, table, cache₃.toMap, hroot, htable,
    (server_refines_resolver hroot htable resolverEvents _).mpr ⟨cache₃, hserved, rfl⟩⟩

end DnsServer
