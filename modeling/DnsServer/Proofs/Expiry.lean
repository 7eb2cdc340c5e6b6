/-
How long an answer is served from the cache.

Every entry is given the same fifty seconds when it is added, and each lookup that
finds it starts them anew; the time to live of the response that brought it is not
looked at.  So a lookup that finds a name comes less than fifty seconds after the
name was last added or found, however long ago it was first added.

A request makes its calls to the cache one after another: a lookup for its name
and one for each name it is redirected to, and then an addition, if there is
something to add.  `Serves` says which calls these are.
-/
import DnsServer.Proofs.Forward

namespace DnsServer

open Call Runs

variable {root : TrieNode} {cache cache' : DNSCache}

/-! ### The calls a request makes -/

/-- The lookup one call to `retriveValue` begins with. -/
def CallEnv.lookup (env : CallEnv) (domainName : Bytes) : CacheOp :=
  .lookup domainName env.cleanNow env.touchNow

/-- Looking a name up makes these calls to the cache, finds this and leaves this cache. -/
inductive Retrieves (root : TrieNode) : Bytes → (Nat → CallEnv) → DNSCache → List CacheOp →
    Option CacheEntry → DNSCache → Prop
  | cached {domainName calls cache cache' value}
      (h : lookupDNSCache (calls 0).cleanNow (calls 0).touchNow cache domainName
        = (cache', some value)) :
      Retrieves root domainName calls cache [(calls 0).lookup domainName]
        (some ((calls 0).entry domainName value)) cache'
  | record {domainName calls cache cache' value}
      (h : lookupDNSCache (calls 0).cleanNow (calls 0).touchNow cache domainName = (cache', none))
      (hsearch : Settles (fun fuel => searchTrie fuel root (extractWordsFromDomain domainName))
        (done (.record value))) :
      Retrieves root domainName calls cache [(calls 0).lookup domainName]
        (some ((calls 0).entry domainName value)) cache'
  | missing {domainName calls cache cache'}
      (h : lookupDNSCache (calls 0).cleanNow (calls 0).touchNow cache domainName = (cache', none))
      (hsearch : Settles (fun fuel => searchTrie fuel root (extractWordsFromDomain domainName))
        (done .missing)) :
      Retrieves root domainName calls cache [(calls 0).lookup domainName] none cache'
  | redirect {domainName calls cache cache₁ cache' ns ops found}
      (h : lookupDNSCache (calls 0).cleanNow (calls 0).touchNow cache domainName = (cache₁, none))
      (hsearch : Settles (fun fuel => searchTrie fuel root (extractWordsFromDomain domainName))
        (done (.redirect ns)))
      (hrest : Retrieves root (if (calls 0).coin then ns.domain1 else ns.domain2)
        (fun i => calls (i + 1)) cache₁ ops found cache') :
      Retrieves root domainName calls cache ((calls 0).lookup domainName :: ops) found cache'

theorem retrieves_of_done {fuel : Nat} : ∀ {domainName : Bytes} {calls : Nat → CallEnv}
    {cache cache' : DNSCache} {found : Option CacheEntry},
    retriveValue fuel root domainName calls cache = done (found, cache') →
    ∃ ops, Retrieves root domainName calls cache ops found cache' := by
  induction fuel with
  | zero => intro _ _ _ _ _ h; simp [retriveValue] at h
  | succ fuel ih =>
      intro domainName calls cache cache' found h
      rw [retriveValue_succ] at h
      rcases hlookup : lookupDNSCache (calls 0).cleanNow (calls 0).touchNow cache domainName
        with ⟨cache₁, _ | value⟩
      · rw [hlookup] at h
        obtain ⟨result, hsearch, hrest⟩ := bind_eq_done.mp h
        have hsettles : Settles (fun fuel => searchTrie fuel root
            (extractWordsFromDomain domainName)) (done result) :=
          (searchTrie_mono _ _).settles_done fuel hsearch
        rcases result with value | ns | _
        · simp only [done.injEq, Prod.mk.injEq] at hrest
          obtain ⟨rfl, rfl⟩ := hrest
          exact ⟨_, .record hlookup hsettles⟩
        · obtain ⟨ops, hops⟩ := ih hrest
          exact ⟨_, .redirect hlookup hsettles hops⟩
        · simp only [done.injEq, Prod.mk.injEq] at hrest
          obtain ⟨rfl, rfl⟩ := hrest
          exact ⟨_, .missing hlookup hsettles⟩
      · rw [hlookup] at h
        simp only [done.injEq, Prod.mk.injEq] at h
        obtain ⟨rfl, rfl⟩ := h
        exact ⟨_, .cached hlookup⟩

/-- These calls are all there is to looking the name up. -/
theorem Retrieves.settles {domainName : Bytes} {calls : Nat → CallEnv} {ops : List CacheOp}
    {found : Option CacheEntry} (h : Retrieves root domainName calls cache ops found cache') :
    Settles (fun fuel => retriveValue fuel root domainName calls cache)
      (done (found, cache')) := by
  refine ((retriveValue_mono _ _ _ _).settles_iff (by simp)).mpr ?_
  induction h with
  | cached hlookup =>
      refine ⟨1, ?_⟩
      rw [retriveValue_succ, hlookup]
  | record hlookup hsearch =>
      obtain ⟨enough, henough⟩ := hsearch
      refine ⟨enough + 1, ?_⟩
      simp only [retriveValue_succ, hlookup, henough enough (Nat.le_refl enough), done_bind]
  | missing hlookup hsearch =>
      obtain ⟨enough, henough⟩ := hsearch
      refine ⟨enough + 1, ?_⟩
      simp only [retriveValue_succ, hlookup, henough enough (Nat.le_refl enough), done_bind]
  | redirect hlookup hsearch _ ih =>
      obtain ⟨enough, henough⟩ := hsearch
      obtain ⟨rest, hrest⟩ := ih
      refine ⟨max enough rest + 1, ?_⟩
      simp only [retriveValue_succ, hlookup, henough _ (Nat.le_max_left enough rest), done_bind]
      exact retriveValue_mono _ _ _ _ rest _ _ (Nat.le_max_right enough rest) hrest (by simp)

/-- Looking a name up comes to an answer exactly when some calls come to it. -/
theorem settles_iff_retrieves {domainName : Bytes} {calls : Nat → CallEnv}
    {found : Option CacheEntry} :
    Settles (fun fuel => retriveValue fuel root domainName calls cache) (done (found, cache')) ↔
      ∃ ops, Retrieves root domainName calls cache ops found cache' := by
  refine ⟨?_, fun ⟨_, h⟩ => h.settles⟩
  intro h
  obtain ⟨enough, henough⟩ := h
  exact retrieves_of_done (henough enough (Nat.le_refl enough))

theorem Retrieves.exec {domainName : Bytes} {calls : Nat → CallEnv} {ops : List CacheOp}
    {found : Option CacheEntry} (h : Retrieves root domainName calls cache ops found cache') :
    (exec CacheOp.run cache ops).1 = cache' := by
  induction h with
  | cached h => exact congrArg Prod.fst h
  | record h _ => exact congrArg Prod.fst h
  | missing h _ => exact congrArg Prod.fst h
  | @redirect domainName calls cache cache₁ cache' ns ops found h _ _ ih =>
      show (Runs.exec CacheOp.run (lookupDNSCache _ _ cache domainName).1 ops).1 = cache'
      rw [h]
      exact ih

/-- The addition that ends a request. -/
def ClientRequest.additions (request : ClientRequest) : Option CacheEntry → List CacheOp
  | some entry => [.add entry request.addNow]
  | none =>
      if cstr request.forwarded = [] then []
      else [.add (dnsCreateNewEntry request.query (cstr request.forwarded)) request.addNow]

/-- A request is handled with these calls to the cache, and they leave it like this. -/
structure Serves (root : TrieNode) (cache : DNSCache) (served : ClientRequest × List CacheOp)
    (cache' : DNSCache) : Prop where
  handles : Handles root cache served.1 cache'
  calls : served.2 = [] ∨ ∃ ops found cache₁,
    Retrieves root served.1.query served.1.calls cache ops found cache₁ ∧
      served.2 = ops ++ served.1.additions found
  exec : (exec CacheOp.run cache served.2).1 = cache'

theorem handles_iff_serves {request : ClientRequest} :
    Handles root cache request cache' ↔ ∃ ops, Serves root cache (request, ops) cache' := by
  refine ⟨?_, fun ⟨_, h⟩ => h.handles⟩
  intro h
  obtain ⟨response, enough, henough⟩ := h
  have hhandles : Handles root cache request cache' := ⟨response, enough, henough⟩
  rcases handleClient_cases (henough enough (Nat.le_refl enough)) with
    rfl | ⟨found, cache₁, hfound, hadded⟩
  · exact ⟨[], hhandles, Or.inl rfl, rfl⟩
  obtain ⟨ops, hops⟩ := retrieves_of_done hfound
  refine ⟨ops ++ request.additions found, hhandles,
    Or.inr ⟨ops, found, cache₁, hops, rfl⟩, ?_⟩
  rw [exec_append, hops.exec]
  rcases hadded with ⟨entry, rfl, -, rfl⟩ | ⟨rfl, hnone, -, rfl⟩ | ⟨rfl, hsome, -, rfl⟩
  · rfl
  · rw [ClientRequest.additions, if_pos hnone]
    rfl
  · rw [ClientRequest.additions, if_neg hsome]
    rfl

/-! ### When a name was last touched -/

/-- The time at which a call touches a name: it adds it anew, or it finds it. -/
def CacheOp.touches (d : Bytes) (cache : DNSCache) : CacheOp → Option Int
  | .start => none
  | .add entry now => if entry.domainName = d ∧ cache.find d = none then some now else none
  | .lookup domainName cleanNow now =>
      if domainName = d ∧ (lookupDNSCache cleanNow now cache domainName).2 ≠ none then some now
      else none
  | .cleanUp _ => none

/-- The times at which calls touch a name, in order. -/
def touchTimes (d : Bytes) : DNSCache → List CacheOp → List Int
  | _, [] => []
  | cache, op :: ops => (op.touches d cache).toList ++ touchTimes d (op.run cache).1 ops

theorem find_filtered {cache : DNSCache} (h : cache.Inv) {now : Int} {d : Bytes} {e : CacheEntry}
    (hfind : (dnsCacheCleanUp now cache).find d = some e) :
    cache.find d = some e ∧ now - e.timestamp < ttlValueCache := by
  rw [find_cleanUp h, Option.filter_eq_some_iff] at hfind
  refine ⟨hfind.1, ?_⟩
  have hfresh : ¬ now - e.timestamp ≥ 50 := by simpa using hfind.2
  show now - e.timestamp < 50
  omega

/-- What a call does to the entry of a name: touch it, or leave it as it was. -/
theorem find_run {cache : DNSCache} (h : cache.Inv) {op : CacheOp} {d : Bytes} {e : CacheEntry}
    (hfind : (op.run cache).1.find d = some e) :
    op.touches d cache = some e.timestamp ∨
      (op.touches d cache = none ∧ cache.find d = some e) := by
  rcases op with _ | ⟨entry, now⟩ | ⟨domainName, cleanNow, now⟩ | now
  · have hempty : initializeDNSCache.find d = none := rfl
    rw [show (CacheOp.start.run cache).1 = initializeDNSCache from rfl, hempty] at hfind
    simp at hfind
  · rw [show ((CacheOp.add entry now).run cache).1 = addCacheEntry now cache entry from rfl,
      find_add] at hfind
    dsimp only [CacheOp.touches]
    by_cases hd : d = entry.domainName
    · rw [if_pos hd] at hfind
      rcases hold : cache.find d with _ | old
      · rw [hold, Option.getD_none, Option.some.injEq] at hfind
        rw [if_pos ⟨hd.symm, rfl⟩, ← hfind]
        exact Or.inl rfl
      · rw [hold, Option.getD_some] at hfind
        rw [if_neg (by simp), ← hfind]
        exact Or.inr ⟨rfl, rfl⟩
    · rw [if_neg hd] at hfind
      rw [if_neg fun hboth => hd hboth.1.symm]
      exact Or.inr ⟨rfl, hfind⟩
  · rw [show ((CacheOp.lookup domainName cleanNow now).run cache).1
      = (lookupDNSCache cleanNow now cache domainName).1 from rfl, find_lookup] at hfind
    dsimp only [CacheOp.touches]
    rw [(lookupDNSCache_eq cleanNow now cache domainName).1]
    by_cases hd : d = domainName
    · subst hd
      rw [if_pos rfl] at hfind
      obtain ⟨old, hold, rfl⟩ := Option.map_eq_some_iff.mp hfind
      rw [hold, if_pos ⟨rfl, by simp⟩]
      exact Or.inl rfl
    · rw [if_neg hd] at hfind
      rw [if_neg fun hboth => hd hboth.1.symm]
      exact Or.inr ⟨rfl, (find_filtered h hfind).1⟩
  · exact Or.inr ⟨rfl, (find_filtered h hfind).1⟩

/-- After any calls an entry's timestamp is the time its name was last touched. -/
theorem last_touch {d : Bytes} {e : CacheEntry} : ∀ {ops : List CacheOp} {cache : DNSCache},
    cache.Inv → (exec CacheOp.run cache ops).1.find d = some e →
    (touchTimes d cache ops).getLast? = some e.timestamp ∨
      (touchTimes d cache ops = [] ∧ cache.find d = some e) := by
  intro ops
  induction ops with
  | nil => intro cache _ hfind; exact Or.inr ⟨rfl, hfind⟩
  | cons op ops ih =>
      intro cache h hfind
      rcases ih (h.run op) hfind with hlast | ⟨hnone, hold⟩
      · refine Or.inl ?_
        rw [touchTimes, List.getLast?_append, hlast]
        rfl
      · rcases find_run h hold with htouch | ⟨htouch, hbefore⟩
        · refine Or.inl ?_
          rw [touchTimes, hnone, htouch]
          rfl
        · refine Or.inr ⟨?_, hbefore⟩
          rw [touchTimes, hnone, htouch]
          rfl

/-- The calls made while requests are handled, one after another. -/
theorem serves_exec {served : List (ClientRequest × List CacheOp)}
    (h : Trace (fun cache => cache = initializeDNSCache) (Serves root) served cache) :
    (exec CacheOp.run initializeDNSCache (served.flatMap Prod.snd)).1 = cache := by
  induction h with
  | start h => exact h.symm
  | @step served s s' next _ hserves ih =>
      rw [List.flatMap_append, exec_append, ih, List.flatMap_singleton]
      exact hserves.exec

/--
**Nothing is served fifty seconds after it was last touched.**  Whatever requests
were handled before and whatever was forwarded for them, a lookup that finds a name
in the cache begins less than `TTL_VALUE_CACHE` seconds after that name was last
added anew or found there.
-/
theorem served_within_ttl (root : TrieNode) (served : List (ClientRequest × List CacheOp))
    (cache : DNSCache)
    (h : Trace (fun cache => cache = initializeDNSCache) (Serves root) served cache)
    (d : Bytes) (env : CallEnv) (value : Bytes)
    (hserved : (lookupDNSCache env.cleanNow env.touchNow cache d).2 = some value) :
    ∃ touched,
      (touchTimes d initializeDNSCache (served.flatMap Prod.snd)).getLast? = some touched ∧
      env.cleanNow < touched + ttlValueCache := by
  have hexec := serves_exec h
  have hinv : cache.Inv := by
    rw [← hexec]
    exact exec_inv (fun _ op hs => hs.run op) DNSCache.Inv.start _
  rw [(lookupDNSCache_eq _ _ cache d).1] at hserved
  obtain ⟨entry, hentry, -⟩ := Option.map_eq_some_iff.mp hserved
  obtain ⟨hfind, hfresh⟩ := find_filtered hinv hentry
  rw [← hexec] at hfind
  rcases last_touch DNSCache.Inv.start hfind with hlast | ⟨-, hstart⟩
  · exact ⟨entry.timestamp, hlast, by omega⟩
  · have hempty : initializeDNSCache.find d = none := rfl
    rw [hempty] at hstart
    simp at hstart

/-! ### A record served after its time to live -/

/-- The name asked for again, at this time. -/
def laterRequest (now : Int) : ClientRequest :=
  { sent := some (ascii "example.com")
    calls := fun _ => { cleanNow := now, touchNow := now, entryNow := now, coin := true }
    forwarded := [], addNow := now }

theorem later_handled : ∃ cache₁ cache₂ cache₃,
    Handles emptyTrie initializeDNSCache (answeredRequest (ascii "example.com")) cache₁ ∧
    Handles emptyTrie cache₁ (laterRequest 40) cache₂ ∧
    Settles (fun fuel => handleClient fuel emptyTrie cache₂ (laterRequest 80))
      (done (some (ascii "93.184.216.34"), cache₃)) ∧
    (lookupDNSCache 80 80 cache₂ (ascii "example.com")).2 = some (ascii "93.184.216.34") :=
  ⟨_, _, _, ⟨_, (handleClient_mono _ _ _).settles_done 3 rfl⟩,
    ⟨_, (handleClient_mono _ _ _).settles_done 3 rfl⟩,
    (handleClient_mono _ _ _).settles_done 3 rfl, rfl⟩

/-- A response with a time to live of 60 is cached at 0, found at 40 and still served at 80. -/
theorem served_past_ttl : ∃ pkt cache₁ cache₂ cache₃,
    (answeredEnv 0).FirstResponse 0 pkt ∧ pkt.answer.ttl = 60 ∧
    Settles (fun fuel => forwardedAddress fuel (ascii "example.com") (answeredEnv 0))
      (done (answeredRequest (ascii "example.com")).forwarded) ∧
    Handles emptyTrie initializeDNSCache (answeredRequest (ascii "example.com")) cache₁ ∧
    Handles emptyTrie cache₁ (laterRequest 40) cache₂ ∧
    Settles (fun fuel => handleClient fuel emptyTrie cache₂ (laterRequest 80))
      (done (some (ascii "93.184.216.34"), cache₃)) ∧
    (lookupDNSCache 80 80 cache₂ (ascii "example.com")).2 = some (ascii "93.184.216.34") := by
  obtain ⟨pkt, hfirst, -, httl, -⟩ := answered_firstResponse 0
  obtain ⟨cache₁, cache₂, cache₃, hrun⟩ := later_handled
  exact ⟨pkt, cache₁, cache₂, cache₃, hfirst, httl, answered_forwarded 0 _, hrun⟩

/-- The time it was last touched before that is less than fifty seconds ago. -/
theorem served_within_ttl_later :
    ∃ (served : List (ClientRequest × List CacheOp)) (touched : Int),
      (touchTimes (ascii "example.com") initializeDNSCache (served.flatMap Prod.snd)).getLast?
        = some touched ∧ 80 < touched + ttlValueCache := by
  obtain ⟨cache₁, cache₂, -, hfirst, hsecond, -, hserved⟩ := later_handled
  obtain ⟨ops₁, hops₁⟩ := handles_iff_serves.mp hfirst
  obtain ⟨ops₂, hops₂⟩ := handles_iff_serves.mp hsecond
  exact ⟨_, served_within_ttl emptyTrie _ cache₂
    (Trace.step (Trace.step (Trace.start rfl) hops₁) hops₂) (ascii "example.com")
    { cleanNow := 80, touchNow := 80, entryNow := 80, coin := true } _ hserved⟩

end DnsServer
