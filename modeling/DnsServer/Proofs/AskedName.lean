/-
Under which name an answer is cached.

The entry a lookup returns is filled at two places, from the cache and at a node with
a record, and both give it the name that was looked up.  At a zone's own name nothing
is filled: the entry is the one a second lookup returns, for the name of the server
chosen, and it carries that name.  It cannot carry the name asked for.  That one is
not in the cache when the redirection starts, nothing puts it there on the way, and
the search for it ends at the zone again.

So the answer to a name redirected is added under another name, and the name is no
more in the cache when it is asked for again than it was before.
-/
import DnsServer.Proofs.Expiry
import DnsServer.Proofs.TrieLookup

namespace DnsServer

open Call TrieNode

variable {root : TrieNode} {cache cache' : DNSCache} {d : Bytes}

/-! ### The name an entry carries -/

/-- The labels of the name lead to a node with a record of this value. -/
def LeadsToRecord (root : TrieNode) (d value : Bytes) : Prop :=
  extractWordsFromDomain d ≠ [] ∧
    ∃ node, root.descend (extractWordsFromDomain d).reverse = some node ∧
      node.firstValue = some value

/-- The name itself is answered: it is in the cache, or it leads to a record. -/
def AnsweredAsOwn (root : TrieNode) (cache : DNSCache) (d : Bytes) (now : Int) : Prop :=
  HoldsFresh cache d now ∨ ∃ value, LeadsToRecord root d value

theorem lookup_eq_record_iff {labels : List Bytes} {value : Bytes} :
    root.lookup labels = done (.record value) ↔
      ∃ node, root.descend labels = some node ∧ node.firstValue = some value := by
  refine ⟨?_, fun ⟨node, hnode, hvalue⟩ => lookup_of_firstValue hnode hvalue⟩
  intro h
  unfold lookup at h
  rcases hnode : root.descend labels with _ | node
  · rw [hnode] at h
    simp at h
  rw [hnode] at h
  dsimp only at h
  rcases hvalue : node.firstValue with _ | first
  · rw [hvalue] at h
    rcases hns : node.servers with _ | ns
    · rw [hns] at h
      simp at h
    · rw [hns] at h
      simp at h
  · rw [hvalue] at h
    simp only [done.injEq, SearchResult.record.injEq] at h
    subst h
    exact ⟨node, rfl, hvalue⟩

/-- The search for a name finds a record exactly when its labels lead to one. -/
theorem findsRecord_iff_leads {value : Bytes} :
    FindsRecord root d value ↔ LeadsToRecord root d value := by
  rw [findsRecord_iff]
  unfold LeadsToRecord
  by_cases hwords : extractWordsFromDomain d = []
  · rw [hwords]
    refine ⟨fun h => ?_, fun h => absurd rfl h.1⟩
    unfold walk at h
    rcases hchildren : root.childrens with _ | ⟨child, rest⟩
    · simp [hchildren] at h
    · simp [hchildren] at h
  · rw [walk_reverse_eq_lookup root hwords, lookup_eq_record_iff]
    exact ⟨fun h => ⟨hwords, h⟩, fun h => h.2⟩

/-- No redirection ends at a name that is neither in the cache nor leads to a record. -/
theorem Retrieves.named_other {domainName : Bytes} {calls : Nat → CallEnv} {ops : List CacheOp}
    {found : Option CacheEntry} (h : Retrieves root domainName calls cache ops found cache')
    (hfind : cache.find d = none) (hsearch : ∀ value, ¬ FindsRecord root d value)
    {entry : CacheEntry} (hfound : found = some entry) : entry.domainName ≠ d := by
  induction h with
  | @cached domainName calls cache cache' value hlookup =>
      rw [Option.some.injEq] at hfound
      subst hfound
      intro hname
      have hname : domainName = d := hname
      subst hname
      have hmiss := lookup_absent hfind (calls 0).cleanNow (calls 0).touchNow
      rw [hlookup] at hmiss
      simp at hmiss
  | @record domainName calls cache cache' value _ hrecord =>
      rw [Option.some.injEq] at hfound
      subst hfound
      intro hname
      have hname : domainName = d := hname
      subst hname
      exact hsearch value hrecord
  | missing _ _ => simp at hfound
  | @redirect domainName calls cache cache₁ cache' ns ops found hlookup _ _ ih =>
      refine ih ?_ hfound
      have hleft := find_lookup_absent hfind (calls 0).cleanNow (calls 0).touchNow domainName
      rw [hlookup] at hleft
      exact hleft

/-- The entry a redirection returns carries another name than the one asked for. -/
theorem Retrieves.redirected_other {calls : Nat → CallEnv} {ops : List CacheOp} {ns : NSQuerys}
    {entry : CacheEntry} {cache₁ : DNSCache} {next : Bytes} {cleanNow now : Int}
    (hlookup : lookupDNSCache cleanNow now cache d = (cache₁, none))
    (hsearch : Settles (fun fuel => searchTrie fuel root (extractWordsFromDomain d))
      (done (.redirect ns)))
    (hrest : Retrieves root next calls cache₁ ops (some entry) cache') :
    entry.domainName ≠ d := by
  refine hrest.named_other (find_of_lookup_none hlookup) ?_ rfl
  intro value hfinds
  have heq := Settles.unique hsearch hfinds
  simp at heq

/-- **The entry returned carries the name asked for exactly when that name itself is answered**,
and not the one it is redirected to. -/
theorem Retrieves.named_iff {calls : Nat → CallEnv} {ops : List CacheOp} {entry : CacheEntry}
    (h : Retrieves root d calls cache ops (some entry) cache') :
    entry.domainName = d ↔ AnsweredAsOwn root cache d (calls 0).cleanNow := by
  have hcached := @lookup_ne_none_iff cache d (calls 0).cleanNow (calls 0).touchNow
  rcases h with ⟨hlookup⟩ | ⟨hlookup, hrecord⟩ | _ | ⟨hlookup, hredirect, hrest⟩
  · refine ⟨fun _ => Or.inl (hcached.mp ?_), fun _ => rfl⟩
    rw [hlookup]
    simp
  · exact ⟨fun _ => Or.inr ⟨_, findsRecord_iff_leads.mp hrecord⟩, fun _ => rfl⟩
  · refine ⟨fun hname => absurd hname (hrest.redirected_other hlookup hredirect), fun hown => ?_⟩
    rcases hown with hfresh | ⟨value, hleads⟩
    · rw [← hcached, hlookup] at hfresh
      exact absurd rfl hfresh
    · have heq := Settles.unique hredirect (findsRecord_iff_leads.mpr hleads)
      simp at heq

/-! ### Asking again -/

/-- The name is in the cache with this value, touched at this time, and it is found there by every
lookup that begins before its time to live is over. -/
def FoundAgain (cache : DNSCache) (d value : Bytes) (touched : Int) : Prop :=
  ∃ e, cache.find d = some e ∧ e.recordValue = value ∧ e.timestamp = touched ∧
    (cache.Inv → e.ttl = ttlValueCache) ∧
    ∀ cleanNow now, cleanNow < touched + e.ttl →
      (lookupDNSCache cleanNow now cache d).2 = some value

theorem foundAgain_of_find {e : CacheEntry} (hfind : cache.find d = some e) :
    FoundAgain cache d e.recordValue e.timestamp := by
  refine ⟨e, hfind, rfl, rfl, ?_, ?_⟩
  · intro hinv
    exact hinv.ttl _ e (HashTable.find_eq_some hfind).1
  · intro cleanNow now hbefore
    exact lookup_fresh hfind (by omega) now

/-- An answer that carries the name asked for is found again once it has been added. -/
theorem Retrieves.foundAgain {calls : Nat → CallEnv} {ops : List CacheOp} {entry : CacheEntry}
    (h : Retrieves root d calls cache ops (some entry) cache') (hname : entry.domainName = d)
    (addNow : Int) :
    ∃ touched, (touched = (calls 0).touchNow ∨ touched = addNow) ∧
      FoundAgain (addCacheEntry addNow cache' entry) d entry.recordValue touched := by
  have hadd := find_add addNow cache' entry d
  rw [if_pos hname.symm] at hadd
  rcases h with ⟨hlookup⟩ | ⟨hlookup, hrecord⟩ | _ | ⟨hlookup, hredirect, hrest⟩
  · -- what is in the cache stays there, and its time began when it was found
    obtain ⟨e, hfind, hvalue, htouched⟩ := find_of_lookup_some hlookup
    rw [hfind, Option.getD_some] at hadd
    have hagain := foundAgain_of_find hadd
    rw [hvalue, htouched] at hagain
    exact ⟨_, Or.inl rfl, hagain⟩
  · rw [find_of_lookup_none hlookup, Option.getD_none] at hadd
    exact ⟨_, Or.inr rfl, foundAgain_of_find hadd⟩
  · exact absurd hname (hrest.redirected_other hlookup hredirect)

/--
**An answer is cached under the name asked for exactly when that name itself is answered.**
Whatever the trie and the cache: the entry a lookup returns carries the name asked for, and
once it is added the name is found in the cache with its value for as long as its time to
live lasts, if and only if the cache held the name when it was looked up or the name leads
to a record.  An answer found through a zone's name servers is cached under theirs.
-/
theorem cached_under_asked_iff (root : TrieNode) (q : Bytes) (calls : Nat → CallEnv)
    (cache cache₁ : DNSCache) (entry : CacheEntry)
    (h : Settles (fun fuel => retriveValue fuel root q calls cache) (done (some entry, cache₁))) :
    (entry.domainName = q ∧ ∀ addNow,
      ∃ touched, (touched = (calls 0).touchNow ∨ touched = addNow) ∧
        FoundAgain (addCacheEntry addNow cache₁ entry) q entry.recordValue touched) ↔
      AnsweredAsOwn root cache q (calls 0).cleanNow := by
  obtain ⟨ops, hops⟩ := settles_iff_retrieves.mp h
  rw [← hops.named_iff]
  refine ⟨fun hboth => hboth.1, fun hname => ⟨hname, fun addNow => ?_⟩⟩
  exact hops.foundAgain hname addNow

/-- A record's own name, asked for with nothing in the cache. -/
theorem cached_under_asked_www : ∃ entry cache₁,
    Settles (fun fuel => retriveValue fuel exampleTrie (ascii "www.example.com")
      exampleRequest.calls initializeDNSCache) (done (some entry, cache₁)) ∧
    entry.domainName = ascii "www.example.com" ∧ ∀ addNow,
      ∃ touched, (touched = 0 ∨ touched = addNow) ∧
        FoundAgain (addCacheEntry addNow cache₁ entry) (ascii "www.example.com")
          entry.recordValue touched := by
  obtain ⟨entry, cache₁, hentry⟩ : ∃ entry cache₁,
      Settles (fun fuel => retriveValue fuel exampleTrie (ascii "www.example.com")
        exampleRequest.calls initializeDNSCache) (done (some entry, cache₁)) :=
    ⟨_, _, (retriveValue_mono _ _ _ _).settles_done 9 rfl⟩
  have hleads : LeadsToRecord exampleTrie (ascii "www.example.com") (ascii "192.168.1.10") :=
    ⟨by decide, _, rfl, rfl⟩
  exact ⟨entry, cache₁, hentry, (cached_under_asked_iff exampleTrie (ascii "www.example.com")
    exampleRequest.calls initializeDNSCache cache₁ entry hentry).mpr (Or.inr ⟨_, hleads⟩)⟩

/-- A zone's own name: the answer is cached under its server's, and asked for again one second
later the name is not in the cache. -/
theorem zone_cached_under_server : ∃ entry cache₁,
    Settles (fun fuel => retriveValue fuel exampleTrie (ascii "example.com")
      exampleRequest.calls initializeDNSCache) (done (some entry, cache₁)) ∧
    entry.domainName ≠ ascii "example.com" ∧ entry.domainName = ascii "www.example.com" ∧
    (lookupDNSCache 1 1 (addCacheEntry 0 cache₁ entry) (ascii "example.com")).2 = none :=
  ⟨_, _, (retriveValue_mono _ _ _ _).settles_done 9 rfl, by decide, rfl, rfl⟩

end DnsServer
