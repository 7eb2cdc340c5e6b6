/-
Two spellings of one name.

The search splits a name at its full stops and drops what is empty, so a full stop at the
end makes no difference to it.  To the cache it does: a name is kept under its bytes.
Where the name leads to a record that is no matter, for what is cached agrees with the
trie; where it does not, the address cached under one spelling is not found under the
other.

Letters are compared as bytes everywhere, so a name in other letters is another name.
-/
import DnsServer.Proofs.FailedForward
import DnsServer.Spec.Aliases

namespace DnsServer

open Call Runs

variable {root : TrieNode} {cache cache' : DNSCache} {calls : Nat → CallEnv} {q q₁ q₂ : Bytes}

/-! ### Spellings -/

/-- One of them may have a full stop more at its end. -/
def UpToDot (q₁ q₂ : Bytes) : Prop := q₁ = q₂ ∨ q₁ = q₂ ++ [dot] ∨ q₂ = q₁ ++ [dot]

/-- The same letters, in either case, and perhaps a full stop more at the end of one. -/
def SameName (q₁ q₂ : Bytes) : Prop := UpToDot (q₁.map lower) (q₂.map lower)

/-- The search in the trie comes to the same end for both. -/
def SearchedAlike (root : TrieNode) (q₁ q₂ : Bytes) : Prop :=
  ∀ result, Settles (fun fuel => searchTrie fuel root (extractWordsFromDomain q₁)) (done result) ↔
    Settles (fun fuel => searchTrie fuel root (extractWordsFromDomain q₂)) (done result)

theorem SearchedAlike.symm (h : SearchedAlike root q₁ q₂) : SearchedAlike root q₂ q₁ :=
  fun result => (h result).symm

/-- A full stop at the end makes no label. -/
theorem extractWords_dot (q : Bytes) :
    extractWordsFromDomain (q ++ [dot]) = extractWordsFromDomain q := by
  have hsplit := strtok_append (List.mem_singleton_self dot) q []
  have hnil : strtok [dot] [] = [] := Split.tokens_nil
  rw [hnil, List.append_nil] at hsplit
  exact hsplit

theorem UpToDot.searchedAlike (h : UpToDot q₁ q₂) : SearchedAlike root q₁ q₂ := by
  have hwords : extractWordsFromDomain q₁ = extractWordsFromDomain q₂ := by
    rcases h with rfl | rfl | rfl
    · rfl
    · exact extractWords_dot q₂
    · exact (extractWords_dot q₁).symm
  intro result
  rw [hwords]

/-! ### What is found -/

/-- Looking the name up finds an entry with this value. -/
def RetrievesValue (root : TrieNode) (cache : DNSCache) (calls : Nat → CallEnv)
    (q value : Bytes) : Prop :=
  ∃ entry cache', Settles (fun fuel => retriveValue fuel root q calls cache)
    (done (some entry, cache')) ∧ entry.recordValue = value

/-- The cache has the same answer to both, a value or none. -/
def AnsweredAlike (cache : DNSCache) (env : CallEnv) (q₁ q₂ : Bytes) : Prop :=
  (lookupDNSCache env.cleanNow env.touchNow cache q₁).2
    = (lookupDNSCache env.cleanNow env.touchNow cache q₂).2

/-- Where the search and the cache answer two names alike, what is found for one is found for the
other. -/
theorem RetrievesValue.alike {value : Bytes} (h : RetrievesValue root cache calls q₁ value)
    (hsearch : SearchedAlike root q₁ q₂) (hcached : AnsweredAlike cache (calls 0) q₁ q₂) :
    RetrievesValue root cache calls q₂ value := by
  obtain ⟨entry, cache', hsettles, hvalue⟩ := h
  obtain ⟨ops, hops⟩ := settles_iff_retrieves.mp hsettles
  rcases hlookup₂ : lookupDNSCache (calls 0).cleanNow (calls 0).touchNow cache q₂
    with ⟨cache₂, answer⟩
  unfold AnsweredAlike at hcached
  rw [hlookup₂] at hcached
  rcases hops with ⟨hlookup⟩ | ⟨hlookup, hends⟩ | _ | ⟨hlookup, hends, hrest⟩
  · rw [hlookup] at hcached
    subst hcached
    exact ⟨_, cache₂, (Retrieves.cached hlookup₂).settles, hvalue⟩
  · rw [hlookup] at hcached
    subst hcached
    exact ⟨_, cache₂, (Retrieves.record hlookup₂ ((hsearch _).mp hends)).settles, hvalue⟩
  · rw [hlookup] at hcached
    subst hcached
    -- neither is cached, so both go on with the cache cleaned
    rw [lookup_none_leaves hlookup, ← lookup_none_leaves hlookup₂] at hrest
    exact ⟨entry, cache', (Retrieves.redirect hlookup₂ ((hsearch _).mp hends) hrest).settles,
      hvalue⟩

/-- A name that leads to a record is found with its value, and with no other. -/
theorem retrievesValue_record (h : Agrees root cache) {value value' : Bytes}
    (hfinds : FindsRecord root q value) :
    RetrievesValue root cache calls q value' ↔ value' = value := by
  obtain ⟨cache₁, hsettles⟩ := retriveValue_record h hfinds calls
  refine ⟨?_, ?_⟩
  · intro hfound
    obtain ⟨entry, cache', hentry, hvalue⟩ := hfound
    have heq := done.inj (Settles.unique hentry hsettles)
    simp only [Prod.mk.injEq, Option.some.injEq] at heq
    rw [← hvalue, heq.1]
    rfl
  · intro heq
    exact ⟨_, cache₁, hsettles, heq.symm⟩

theorem not_retrievesValue {value : Bytes}
    (h : Settles (fun fuel => retriveValue fuel root q calls cache) (done (none, cache'))) :
    ¬ RetrievesValue root cache calls q value := by
  intro hfound
  obtain ⟨entry, cache₁, hentry, -⟩ := hfound
  have heq := done.inj (Settles.unique hentry h)
  simp at heq

/--
**Two spellings are answered alike where the trie and the cache do not tell them apart.**  In
every cache that handled requests leave: the search never tells spellings apart that differ in
a full stop at the end only; and of two names for which it comes to the same end, with a record
or with the same answer from the cache to both, one is found exactly when the other is, with
the same value.
-/
theorem spellings_found_alike (root : TrieNode) (cache : DNSCache) (h : CacheReachable root cache) :
    (∀ q₁ q₂, UpToDot q₁ q₂ → SearchedAlike root q₁ q₂) ∧
    ∀ q₁ q₂ calls, SearchedAlike root q₁ q₂ →
      ((∃ value, FindsRecord root q₁ value) ∨ AnsweredAlike cache (calls 0) q₁ q₂) →
      ∀ value, RetrievesValue root cache calls q₁ value ↔
        RetrievesValue root cache calls q₂ value := by
  refine ⟨fun q₁ q₂ hdot => hdot.searchedAlike, ?_⟩
  intro q₁ q₂ calls hsearch hcase value
  rcases hcase with ⟨found, hfinds⟩ | hcached
  · have hfinds₂ : FindsRecord root q₂ found := (hsearch _).mp hfinds
    rw [retrievesValue_record h.agrees hfinds, retrievesValue_record h.agrees hfinds₂]
  · exact ⟨fun hfound => hfound.alike hsearch hcached,
      fun hfound => hfound.alike hsearch.symm hcached.symm⟩

/-- After a request for the zone, its host is found with a full stop at the end and without. -/
theorem spellings_found_alike_www : ∃ cache, CacheReachable exampleTrie cache ∧
    ∀ calls value, RetrievesValue exampleTrie cache calls (ascii "www.example.com") value ↔
      RetrievesValue exampleTrie cache calls (ascii "www.example.com.") value := by
  obtain ⟨cache, hhandles⟩ : ∃ cache, Handles exampleTrie initializeDNSCache exampleRequest cache :=
    ⟨_, _, (handleClient_mono _ _ _).settles_done 9 rfl⟩
  have hstart : CacheReachable exampleTrie initializeDNSCache := Reachable.start rfl
  have hreach : CacheReachable exampleTrie cache := hstart.next hhandles
  have hfinds : FindsRecord exampleTrie (ascii "www.example.com") (ascii "192.168.1.10") :=
    (searchTrie_mono _ _).settles_done 9 rfl
  have hdot : UpToDot (ascii "www.example.com") (ascii "www.example.com.") :=
    Or.inr (Or.inr rfl)
  exact ⟨cache, hreach, fun calls value =>
    (spellings_found_alike exampleTrie cache hreach).2 _ _ calls
      ((spellings_found_alike exampleTrie cache hreach).1 _ _ hdot) (Or.inl ⟨_, hfinds⟩) value⟩

/-- A host in other letters is not found; nor is, with a full stop at its end, a name that was
forwarded and cached without it. -/
theorem spellings_answered_apart :
    (∃ calls, CacheReachable exampleTrie initializeDNSCache ∧
      SameName (ascii "www.example.com") (ascii "WWW.example.com") ∧
      RetrievesValue exampleTrie initializeDNSCache calls (ascii "www.example.com")
        (ascii "192.168.1.10") ∧
      ∀ value, ¬ RetrievesValue exampleTrie initializeDNSCache calls (ascii "WWW.example.com")
        value) ∧
    ∃ cache calls, CacheReachable emptyTrie cache ∧
      SameName (ascii "example.com") (ascii "example.com.") ∧
      RetrievesValue emptyTrie cache calls (ascii "example.com") (ascii "93.184.216.34") ∧
      ∀ value, ¬ RetrievesValue emptyTrie cache calls (ascii "example.com.") value := by
  refine ⟨⟨exampleRequest.calls, Reachable.start rfl, Or.inl (by decide), ?_, ?_⟩, ?_⟩
  · exact ⟨_, _, (retriveValue_mono _ _ _ _).settles_done 9 rfl, rfl⟩
  · intro value
    exact not_retrievesValue ((retriveValue_mono _ _ _ _).settles_done 9 rfl)
  · have hstart : CacheReachable emptyTrie initializeDNSCache := Reachable.start rfl
    refine ⟨_, (laterRequest 1).calls, hstart.next
      ⟨_, (handleClient_mono emptyTrie _ (answeredRequest (ascii "example.com"))).settles_done 3
        rfl⟩, Or.inr (Or.inr (by decide)), ?_, ?_⟩
    · exact ⟨_, _, (retriveValue_mono _ _ _ _).settles_done 9 rfl, rfl⟩
    · intro value
      exact not_retrievesValue ((retriveValue_mono _ _ _ _).settles_done 9 rfl)

end DnsServer
